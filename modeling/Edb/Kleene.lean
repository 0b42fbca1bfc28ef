-- Kleene's logic of three truth values, as options of booleans with `none` for
-- unknown. Its connectives do not mind an unknown that is read as false.
import Mathlib.Data.Option.Basic

namespace Kleene

def and : Option Bool → Option Bool → Option Bool
  | some false, _ => some false
  | _, some false => some false
  | some true, some true => some true
  | _, _ => none

def or : Option Bool → Option Bool → Option Bool
  | some true, _ => some true
  | _, some true => some true
  | some false, some false => some false
  | _, _ => none

end Kleene
