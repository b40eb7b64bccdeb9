import Kortecx.App.Prepare

/-!
Composition: the Apps that steps call are made ready each under its own envelope, and the
graphs are joined into one. The steps of a callee are appended, its edges moved along, and
each of its sinks becomes a parent of the steps that call it.
-/

namespace Kortecx.App

open Lib Gateway Warrant

def MAX_APP_COMPOSE_DEPTH : Nat := 3
def MAX_COMPOSED_STEPS : Nat := 64

/-- `u32::try_from(n).unwrap_or(u32::MAX)`. -/
def u32OrMax (n : Nat) : UInt32 := UInt32.ofNat (min n (2 ^ 32 - 1))

/-- `Vec::resize`. -/
def resize {α : Type} (l : List α) (n : Nat) (filler : α) : List α :=
  l.take n ++ List.replicate (n - l.length) filler

/-- The run-wide context is put on the roots while they are still known. -/
def pinRunWideItemsToRoots (p : Prepared) : Prepared :=
  if p.contextItems = [] then p
  else
    { p with
      perStep := { p.perStep with
        contextItems := (resize p.perStep.contextItems p.dag.steps.length []).mapIdx
          fun i items => if i ∈ p.dag.roots then items ++ p.contextItems else items }
      contextItems := [] }

/-- An edge of a callee, moved. The sum of the source wraps. -/
def moveEdge (offset : UInt32) (e : EdgeSpec) : EdgeSpec :=
  { e with parent := e.parent + offset, child := e.child + offset }

def spliceCallee (caller callee : Prepared) (targets : List Nat) : Prepared :=
  let offset := caller.dag.steps.length
  { caller with
    dag := { caller.dag with
      steps := caller.dag.steps ++ callee.dag.steps
      edges := caller.dag.edges ++ callee.dag.edges.map (moveEdge (u32OrMax offset)) ++
        targets.flatMap fun target => callee.dag.sinks.map fun sink =>
          { parent := u32OrMax (offset + sink), child := u32OrMax target } }
    perStep :=
      { contextItems := resize caller.perStep.contextItems offset [] ++
          resize callee.perStep.contextItems callee.dag.steps.length []
        secretScope := resize caller.perStep.secretScope offset none ++
          resize callee.perStep.secretScope callee.dag.steps.length none } }

/-- A callee that is not in the catalog is a broken dependency, not a refused caller. -/
def calleeErr (handle : String) : AppRunError → AppRunError
  | .notAuthorized => .uncomposableApp handle "it is not in your app catalog"
  | other => other

def joinCallee (me : Prepared) (handle : String) (targets : List Nat) (callee : Prepared) :
    Except AppRunError Prepared :=
  let callee := pinRunWideItemsToRoots callee
  let total := me.dag.steps.length + callee.dag.steps.length
  if callee.contextBundles ≠ [] then
    .error (.uncomposableApp handle ("it grounds on run-level context bundles (" ++
      ", ".intercalate callee.contextBundles ++ "), which are resolved for the whole run and " ++
      "cannot be scoped to one composed step — attach that grounding to its steps instead"))
  else if MAX_COMPOSED_STEPS < total then
    .error (.invalidArgs (s!"composing {handle} would take this run to {total} steps (max " ++
      s!"{MAX_COMPOSED_STEPS})"))
  else .ok (spliceCallee me callee targets)

section Resolve

variable (prepare : String → Except AppRunError Prepared)

/-- The calls of an App are resolved in the order of their declaration. `levels` is how much
deeper the nesting may go, `chain` the Apps that are being composed. -/
def resolveComposes : Nat → Prepared → List String → Except AppRunError Prepared
  | levels, me, chain =>
    if me.composes.all (·.2 = []) then .ok me
    else
      match levels with
      | 0 =>
        .error (.invalidArgs (s!"app composition nests deeper than {MAX_APP_COMPOSE_DEPTH} " ++
          "levels: " ++ " -> ".intercalate chain))
      | levels + 1 =>
        me.composes.foldlM (fun me call =>
          if call.2 = [] then .ok me
          else if call.1 ∈ chain then
            .error (.invalidArgs ("app composition is cyclic: " ++ " -> ".intercalate chain ++
              " -> " ++ call.1))
          else
            match prepare call.1 with
            | .error e => .error (calleeErr call.1 e)
            | .ok callee =>
              match resolveComposes levels callee (chain ++ [call.1]) with
              | .error e => .error (calleeErr call.1 e)
              | .ok callee => joinCallee me call.1 call.2 callee)
          { pinRunWideItemsToRoots me with composes := [] }

end Resolve

/-- A caller's App and all it calls, as one graph. Arguments go to the App that is run; the
callees run on their own defaults. -/
def composeApp (host : AppHost) (party handle : String) (args : List UInt8)
    (requireApproval : Bool) : Except AppRunError Prepared :=
  match prepareApp host party handle args requireApproval with
  | .error e => .error e
  | .ok me =>
    resolveComposes (fun callee => prepareApp host party callee [] requireApproval)
      MAX_APP_COMPOSE_DEPTH me [handle]

end Kortecx.App
