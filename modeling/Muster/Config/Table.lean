import Muster.Retry.Policy
import Muster.Text.Blank
import Muster.Text.Explained

namespace Muster

inductive ConfigError where
  | missingDeployment
  | blankDeployment
  | zeroTimeout (setting : String)
  | invertedBackoff
deriving DecidableEq

def ConfigError.message : ConfigError → String
  | missingDeployment => "deployment id must be configured before building the membership table config"
  | blankDeployment => "deployment id must not be blank"
  | zeroTimeout setting => s!"`{setting}` must be greater than zero"
  | invertedBackoff => "initial backoff must not exceed max backoff"

instance : Explained ConfigError where
  message := ConfigError.message
  kind
    | .missingDeployment => "MissingDeploymentId"
    | .blankDeployment => "BlankDeploymentId"
    | .zeroTimeout _ => "ZeroTimeout"
    | .invertedBackoff => "InvertedBackoff"

-- Settings of a table. The connection is a folder for tables kept in files.
structure TableConfig where
  deployment : String
  connection : String
  timeout : Span
  policy : Policy
  deployment_shown : Text.allBlank deployment = false
  timeout_pos : timeout.isZero = false
  backoff_le : policy.initial ≤ policy.ceiling
deriving DecidableEq

-- Settings that have not been checked.
structure TableConfig.Draft where
  deployment : Option String := none
  connection : String := ""
  timeout : Span := .ofSeconds 30
  policy : Policy := .standard
deriving DecidableEq

namespace TableConfig

-- Of several faults the one named first here is reported.
def ofDraft (draft : Draft) : Except ConfigError TableConfig :=
  match draft.deployment with
  | none => .error .missingDeployment
  | some deployment =>
    if hshown : Text.allBlank deployment = true then .error .blankDeployment
    else if hpos : draft.timeout.isZero = true then .error (.zeroTimeout "operation_timeout")
    else if hle : draft.policy.initial ≤ draft.policy.ceiling then
      .ok ⟨deployment, draft.connection, draft.timeout, draft.policy,
        Bool.eq_false_iff.mpr hshown, Bool.eq_false_iff.mpr hpos, hle⟩
    else .error .invertedBackoff

end TableConfig
end Muster
