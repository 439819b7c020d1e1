import DomainDiagram.Proofs.Asking
import DomainDiagram.Proofs.Substitution
import DomainDiagram.Proofs.Journal

set_option autoImplicit false

namespace DomainDiagram

namespace Var

end Var

namespace Store

end Store

namespace Action

open Store

theorem branch_found (store : Store) (sound : store.Sound) (f : Ref) (node : Node)
    (tests : store.Tests f node) : branch node.var node.low node.high store = .ok f store := by
  obtain ⟨positive, bound⟩ := sound.allocated f node tests
  obtain ⟨low, high⟩ := sound.ordered f node tests
  have allocated : store.checkAllocated node.var = .ok () := if_neg (by lia)
  have found := (find_tests store sound node positive bound f).mpr tests
  rw [branch_run, allocated, if_neg (sound.irredundant f node tests), (check_below store _ _).mpr low,
    (check_below store _ _).mpr high]
  simp only [found]

end Action

namespace Workspace

example :
    (empty.run [.newStore {}, .newVars 0 1, .construct 0 (.cube [0, 1])]).stores[0]?.map (·.numNodes) = some 1 := by
  decide +kernel

end Workspace
end DomainDiagram
