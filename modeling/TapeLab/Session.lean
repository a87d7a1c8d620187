import TapeLab.RuleTable

/-!
Sessions: the parts of a machine that are kept from one start of the program to the next. A part
that a saved session lacks is absent.
-/

namespace TapeLab

structure Session where
  challenge : Option Int
  rules : Option RuleTable
  cells : Option (List Symbol)
  head : Option Int
  deriving DecidableEq, Repr

def Session.empty : Session := ⟨none, none, none, none⟩

end TapeLab
