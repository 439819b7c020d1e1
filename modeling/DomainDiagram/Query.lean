import DomainDiagram.Models
import DomainDiagram.Printing
import DomainDiagram.Workspace

set_option autoImplicit false

namespace DomainDiagram

-- What can be asked about one store.
inductive Question where
  | checkVar (v : Var)
  | numVars
  | numNodes
  | node (f : Ref)
  | varOf (f : Ref)
  | topVar (f : Ref)
  | cofactors (f : Ref) (v : Var)
  | count (f : Ref)
  | size (f : Ref)
  | diagram (fs : List Ref)
  | bracket (f : Ref)
  | support (f : Ref)
  | members (set : Ref)
  | model (f : Ref)
  | models (f : Ref)
  | modelsOver (f set : Ref)
deriving DecidableEq

inductive Fact where
  | fine
  | amount (n : Nat)
  | node (node : Node)
  | var (v : Var)
  | top (v : Option Var)
  | halves (low high : Ref)
  | nodes (nodes : List (Ref × Node))
  | text (text : String)
  | vars (vars : List Var)
  | choices (choices : Option (List (Var × Bool)))
  | indices (indices : List Nat)
deriving DecidableEq

namespace Store

def told {α : Type} (look : Except Fault α) (fact : α → Fact) : Except Failure Fact :=
  match look with
  | .ok a => .ok (fact a)
  | .error fault => .error (.broken fault)

def answer (store : Store) : Question → Except Failure Fact
  | .checkVar v =>
      match store.checkVar v with
      | .ok () => .ok .fine
      | .error refusal => .error (.refused refusal)
  | .numVars => .ok (.amount store.numVars)
  | .numNodes => .ok (.amount store.numNodes)
  | .node f => told (store.node f) .node
  | .varOf f => told (store.varOf f) .var
  | .topVar f => told (store.topVar f) .top
  | .cofactors f v => told (store.cofactors f v) fun (low, high) => .halves low high
  | .count f => told (store.count f) .amount
  | .size f => told (store.size f) .amount
  | .diagram fs => told (store.diagram fs) .nodes
  | .bracket f => told (store.bracket f) .text
  | .support f => told (store.support f) .vars
  | .members set => told (store.members set) .vars
  | .model f => told (store.model f) .choices
  | .models f => told (store.models f) .amount
  | .modelsOver f set => told (store.modelsOver f set) .amount

end Store

-- Everything that leaves a workspace as it is.
inductive Query where
  | ask (m : Nat) (question : Question)
  | names (p : Nat)
  | table (t : Nat)
  | blocksOf (m t : Nat) (f : Ref)
  | print (m t : Nat) (f : Ref)
  | printInto (m t : Nat) (f : Ref) (sink : BoundedText)

inductive Response where
  | fact (outcome : Except Failure Fact)
  | names (outcome : Except Failure Renaming)
  | table (outcome : Except Failure BlockTable)
  | printed (outcome : Except Failure Unit) (text : String)

inductive Call where
  | change (command : Command)
  | look (query : Query)

inductive Said where
  | changed (outcome : Except Failure Answer)
  | told (response : Response)

structure Turn where
  said : Said
  events : List Event
  workspace : Workspace

namespace Workspace

def factOf {α : Type} (named : Except Failure α) (fact : α → Except Failure Fact) :
    Except Failure Fact :=
  match named with
  | .ok a => fact a
  | .error failure => .error failure

-- Whatever was written and offered before the print broke off stands.
def printing {σ : Type} (ws : Workspace) (m t : Nat) (write : σ → String → Bool × σ) (sink : σ)
    (f : Ref) : Except Failure Unit × Printout σ :=
  match ws.table t, ws.store m with
  | .ok table, .ok store =>
      match table.print store write f ⟨sink, []⟩ with
      | .ok () printout => (.ok (), printout)
      | .error failure printout => (.error failure, printout)
  | .error failure, _ => (.error failure, ⟨sink, []⟩)
  | .ok _, .error failure => (.error failure, ⟨sink, []⟩)

def offered {σ : Type} (printout : Printout σ) : List Event :=
  printout.offered.reverse.map .printed

def look (ws : Workspace) : Query → Response × List Event
  | .ask m question => (.fact (factOf (ws.store m) (·.answer question)), [])
  | .names p => (.names (ws.names p), [])
  | .table t => (.table (ws.table t), [])
  | .blocksOf m t f =>
      let blocks := factOf (ws.table t) fun table =>
        factOf (ws.store m) fun store => .indices <$> table.blocksOf f store
      (.fact blocks, [])
  | .print m t f =>
      let (outcome, printout) := ws.printing m t writeText "" f
      (.printed outcome printout.sink, offered printout)
  | .printInto m t f sink =>
      let (outcome, printout) := ws.printing m t BoundedText.write sink f
      (.printed outcome printout.sink.text, offered printout)

def turn (ws : Workspace) : Call → Turn
  | .change command =>
      let reply := ws.perform command
      ⟨.changed reply.outcome, reply.events, reply.workspace⟩
  | .look query =>
      let (response, events) := ws.look query
      ⟨.told response, events, ws⟩

-- What is answered and reported call by call, and the workspace after each.
def transcript (ws : Workspace) : List Call → List Turn
  | [] => []
  | call :: rest =>
      let turn := ws.turn call
      turn :: turn.workspace.transcript rest

end Workspace

end DomainDiagram
