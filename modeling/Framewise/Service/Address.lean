import Framewise.Number.Numeral

/-!
# The address of the service

Port and host come from the environment. A port is what its text begins with, read as an
integer; it must lie between 0 and 65535. An absent or empty variable stands for its default.
-/

namespace Framewise.Service

/-- Where the service listens. -/
structure Address where
  port : Nat := 5050
  host : String := "127.0.0.1"
deriving DecidableEq, Repr

/-- A port that is none. -/
structure BadPort where
  text : String
deriving DecidableEq, Repr

/-- What a bad port is reported as. -/
def BadPort.message (e : BadPort) : String :=
  "Invalid PORT: " ++ e.text

/-- An environment: the values of its variables. -/
abbrev Environment := String → Option String

/-- A variable that has a value other than the empty text. -/
def setting? (env : Environment) (name : String) : Option String :=
  (env name).filter (· ≠ "")

/-- The port that a text denotes. -/
def port? (text : String) : Option Nat :=
  match Number.leadingInteger? text with
  | some n => if 0 ≤ n ∧ n ≤ 65535 then some n.toNat else none
  | none => none

/-- The address that an environment asks for. -/
def Address.ofEnvironment (env : Environment) : Except BadPort Address :=
  let host := (setting? env "HOST").getD ({} : Address).host
  match setting? env "PORT" with
  | none => .ok { host }
  | some text =>
    match port? text with
    | some port => .ok { port, host }
    | none => .error ⟨text⟩

end Framewise.Service
