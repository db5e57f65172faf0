import Muster.Event.Queue
import Muster.Grain.Directory
import Muster.Rig.Rival
import Muster.Table.Files
import Muster.Table.Store
import Muster.Time.Work

namespace Muster

-- Several parts of a cluster on one clock. Parts of a kind are numbered; what nobody has put up yet
-- counts as empty.
structure Rig where
  stores : List Store
  files : Files
  scripts : List (List Rival)
  directories : List Directory
  queues : List EventQueue
deriving DecidableEq

namespace Rig

def empty : Rig := ⟨[], .empty, [], [], []⟩

def store (rig : Rig) (n : Nat) : Store := rig.stores[n]?.getD .empty

def directory (rig : Rig) (n : Nat) : Directory := rig.directories[n]?.getD .empty

def queue (rig : Rig) (n : Nat) : EventQueue := rig.queues[n]?.getD .standard

def addStore (rig : Rig) (store : Store) : Nat × Rig :=
  (rig.stores.length, { rig with stores := rig.stores ++ [store] })

def addScript (rig : Rig) (script : List Rival) : Nat × Rig :=
  (rig.scripts.length, { rig with scripts := rig.scripts ++ [script] })

def addDirectory (rig : Rig) (directory : Directory) : Nat × Rig :=
  (rig.directories.length, { rig with directories := rig.directories ++ [directory] })

def addQueue (rig : Rig) (queue : EventQueue) : Nat × Rig :=
  (rig.queues.length, { rig with queues := rig.queues ++ [queue] })

def onStore (n : Nat) (work : Work Store α) : Work Rig α :=
  work.zoom (fun rig => rig.store n) fun store rig => { rig with stores := rig.stores.set n store }

def onFiles (act : Files → α × Files) : Work Rig α :=
  (Work.act act).zoom Rig.files fun files rig => { rig with files }

def onDirectory (n : Nat) (act : Directory → α × Directory) : Work Rig α :=
  (Work.act act).zoom (fun rig => rig.directory n) fun directory rig =>
    { rig with directories := rig.directories.set n directory }

def onQueue (n : Nat) (act : EventQueue → α × EventQueue) : Work Rig α :=
  (Work.act act).zoom (fun rig => rig.queue n) fun queue rig => { rig with queues := rig.queues.set n queue }

def tell (queue : Option Nat) (event : Event) : Work Rig Unit :=
  match queue with
  | some n => onQueue n fun queue => ((), queue.enqueue event)
  | none => pure ()

-- To write a part back changes nothing, whether anybody has put it up or not.
theorem set_getD (parts : List α) (n : Nat) (empty : α) : parts.set n (parts[n]?.getD empty) = parts := by
  by_cases hn : n < parts.length
  · rw [List.getElem?_eq_getElem hn, Option.getD_some, List.set_getElem_self]
  · exact List.set_eq_of_length_le (Nat.le_of_not_lt hn)

-- The rival that is next in a script. Once the script is used up nobody interferes.
def takeRival (n : Nat) : Work Rig Rival :=
  Work.act fun rig =>
    match rig.scripts[n]? with
    | some (rival :: rest) => (rival, { rig with scripts := rig.scripts.set n rest })
    | _ => (.pass, rig)

end Rig
end Muster
