namespace Muster

-- An error that says what is the matter: in a word that stays the same whatever the error is about, and
-- in a text for people. An error around another one puts its own word before the other's.
class Explained (ε : Type) where
  kind : ε → String
  message : ε → String

end Muster
