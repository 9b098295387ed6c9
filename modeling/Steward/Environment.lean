import Steward.Failure
import Steward.Text.Blank
import Steward.Text.Decimal
import Steward.Text.Fold
import Steward.Time.Span

/-!
This module contains the reading of settings from the environment: each is a text under a name, and
blanks around the text do not count.
-/

namespace Steward

abbrev Environment := String → Option String

namespace Environment

/--
A number, or the default if nothing is set. `what` names the kind of number in the message.
-/
def natural (env : Environment) (name what : String) (default : Nat) :
    Except (Failure String) Nat :=
  match env name with
  | none => .ok default
  | some raw =>
    match Text.readNat64 (Text.trim raw) with
    | .ok n => .ok n
    | .error fault => .error ((Failure.of fault.message).during s!"invalid {what} value: {raw}")

/--
A span in milliseconds, at least one of them.
-/
def millis (env : Environment) (name : String) (default : Span) :
    Except (Failure String) Span :=
  match env name with
  | none => .ok default
  | some _ => do return Span.ofMillis (max 1 (← env.natural name "millisecond" 0))

/--
A switch, written in one of three ways for on and for off.
-/
def switch (env : Environment) (name : String) (default : Bool) :
    Except (Failure String) Bool :=
  match env name with
  | none => .ok default
  | some raw =>
    let word := Text.fold (Text.trim raw)
    if ["1", "true", "on"].contains word then .ok true
    else if ["0", "false", "off"].contains word then .ok false
    else .error (.of s!"invalid bool value: {raw}")

end Environment

end Steward
