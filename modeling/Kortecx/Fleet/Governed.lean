import Kortecx.Catalog.Resolve
import Kortecx.Fleet.Delegation
import Kortecx.Lib.BudgetWalk

/-!
What a party may do through the teams it is in, and the teams these are in. Two reads walk
the teams upward from the party, each with its own frames and its own ways to stop: one
collects the warrants of all paths, the other only answers whether there is a path. Both
are read off one list of frames, so they agree; and a warrant found at the end of a path is
the team's own, narrowed by every role on the way down.
-/

namespace Kortecx.Fleet

open Lib Warrant List Catalog

def MAX_RESOLUTION_STEPS : Nat := MAX_TEAM_MEMBERS_WALK * MAX_TEAM_MEMBERS_WALK

structure GovernedFleet where
  memberIds : Identities
  members : Inner
  grantIds : Catalog.Identities
  grants : Catalog.Inner
  blake3 : List UInt8 → ByteVec 32
  encodePath : PartyId → List Role → List UInt8

/-- Where the walk that resolves a warrant stands. The role chain begins at the member. -/
structure Frame where
  principal : PartyId
  roles : List Role
  cap : CatalogActionSet
  seen : List PartyId

/-- Where the walk that only answers stands. -/
structure ProbeFrame where
  principal : PartyId
  cap : CatalogActionSet
  seen : List PartyId

/-- The variables of the walk that resolves a warrant. The top of the stack comes first. -/
structure Search where
  stack : List Frame
  steps : Nat
  candidates : List (ByteVec 32 × WarrantSpec)

def Frame.child (frame : Frame) (edge : TeamEdge) : Frame where
  principal := edge.team
  roles := frame.roles ++ [edge.role]
  cap := frame.cap.narrow edge.actionCap
  seen := edge.team :: frame.seen

def ProbeFrame.child (frame : ProbeFrame) (edge : TeamEdge) : ProbeFrame where
  principal := edge.team
  cap := frame.cap.narrow edge.actionCap
  seen := edge.team :: frame.seen

/-- A candidate at least as wide as the best so far takes its place. -/
def prefer (best : Option (ByteVec 32 × WarrantSpec)) (c : ByteVec 32 × WarrantSpec) :
    Option (ByteVec 32 × WarrantSpec) :=
  match best with
  | none => some c
  | some b => if warrantWithin b.2 c.2 then some c else some b

def mostPermissive (candidates : List (ByteVec 32 × WarrantSpec)) : Option WarrantSpec :=
  ((candidates.insertionSort fun x y => (compare x.1 y.1).isLE = true).foldl prefer none).map
    Prod.snd

namespace GovernedFleet

variable (fleet : GovernedFleet)

def memberEdges (member : PartyId) : List TeamEdge :=
  readMemberEdges fleet.memberIds fleet.members member

def pathAnchor (team : PartyId) (roles : List Role) : ByteVec 32 :=
  fleet.blake3 (utf8Bytes "kx-fleet/path/v1" ++ fleet.encodePath team roles)

section Queries

variable (asset : AssetRef) (action : CatalogAction) (ownerRoot : WarrantSpec)

/-- What the team of a frame contributes: its own warrant, narrowed by the roles from the
outermost edge down. -/
def candidateAt (frame : Frame) : Except NarrowingError (Option (ByteVec 32 × WarrantSpec)) :=
  if frame.cap.contains action then
    match resolveEffectiveWarrantFor fleet.grantIds fleet.grants frame.principal asset action
        ownerRoot with
    | .error e => .error e
    | .ok none => .ok none
    | .ok (some teamWarrant) =>
      (frame.roles.reverse.foldlM intersect teamWarrant).map fun w =>
        some (fleet.pathAnchor frame.principal frame.roles, w)
  else
    .ok none

def resolveEdges (frame : Frame) : List TeamEdge → Search → Except NarrowingError Search
  | [], search => .ok search
  | edge :: rest, search =>
    if MAX_RESOLUTION_STEPS ≤ search.steps then
      .ok search
    else if edge.team ∈ frame.seen then
      resolveEdges frame rest { search with steps := search.steps + 1 }
    else
      match fleet.candidateAt asset action ownerRoot (frame.child edge) with
      | .error e => .error e
      | .ok found =>
        resolveEdges frame rest
          { stack := frame.child edge :: search.stack
            steps := search.steps + 1
            candidates := search.candidates ++ found.toList }

def resolveLoop : Nat → Search → Except NarrowingError (List (ByteVec 32 × WarrantSpec))
  | 0, search => .ok search.candidates
  | fuel + 1, search =>
    match search.stack with
    | [] => .ok search.candidates
    | frame :: stack =>
      if MAX_TEAM_MEMBERS_WALK ≤ frame.roles.length then
        resolveLoop fuel { search with stack := stack }
      else
        match fleet.resolveEdges asset action ownerRoot frame
            (fleet.memberEdges frame.principal) { search with stack := stack } with
        | .error e => .error e
        | .ok search =>
          if MAX_RESOLUTION_STEPS ≤ search.steps then
            .ok search.candidates
          else
            resolveLoop fuel search

def resolveMemberWarrant (member : PartyId) : Except NarrowingError (Option WarrantSpec) :=
  (fleet.resolveLoop asset action ownerRoot (MAX_RESOLUTION_STEPS + 1)
    ⟨[⟨member, [], .all, []⟩], 0, []⟩).map mostPermissive

/-- An answer ends the query. -/
def probeEdges (frame : ProbeFrame) :
    List TeamEdge → List ProbeFrame × Nat → Except Bool (List ProbeFrame × Nat)
  | [], search => .ok search
  | edge :: rest, (stack, steps) =>
    if MAX_RESOLUTION_STEPS ≤ steps then
      .error false
    else if edge.team ∈ frame.seen then
      probeEdges frame rest (stack, steps + 1)
    else if (frame.child edge).cap.contains action &&
        isAuthorized fleet.grantIds fleet.grants edge.team asset action then
      .error true
    else
      probeEdges frame rest (frame.child edge :: stack, steps + 1)

def probeLoop : Nat → List ProbeFrame × Nat → Bool
  | 0, _ => false
  | _ + 1, ([], _) => false
  | fuel + 1, (frame :: stack, steps) =>
    if MAX_TEAM_MEMBERS_WALK ≤ frame.seen.length then
      probeLoop fuel (stack, steps)
    else
      match fleet.probeEdges asset action frame (fleet.memberEdges frame.principal)
          (stack, steps) with
      | .error answer => answer
      | .ok search => probeLoop fuel search

def isMemberAuthorized (member : PartyId) : Bool :=
  fleet.probeLoop asset action (MAX_RESOLUTION_STEPS + 1) ([⟨member, .all, []⟩], 0)

end Queries

end GovernedFleet

section Frames

variable (fleet : GovernedFleet)

def frameEdges (frame : Frame) : List TeamEdge :=
  if MAX_TEAM_MEMBERS_WALK ≤ frame.roles.length then [] else fleet.memberEdges frame.principal

def frameNext (frame : Frame) (edge : TeamEdge) : Option Frame :=
  if edge.team ∈ frame.seen then none else some (frame.child edge)

def probeFrameEdges (frame : ProbeFrame) : List TeamEdge :=
  if MAX_TEAM_MEMBERS_WALK ≤ frame.seen.length then [] else fleet.memberEdges frame.principal

def probeNext (frame : ProbeFrame) (edge : TeamEdge) : Option ProbeFrame :=
  if edge.team ∈ frame.seen then none else some (frame.child edge)

def Frame.probe (frame : Frame) : ProbeFrame := ⟨frame.principal, frame.cap, frame.seen⟩

def framesFrom (member : PartyId) : List Frame :=
  walk (frameEdges fleet) frameNext (MAX_RESOLUTION_STEPS + 1) MAX_RESOLUTION_STEPS
    [⟨member, [], .all, []⟩]

def answers (asset : AssetRef) (action : CatalogAction) (frame : ProbeFrame) : Bool :=
  frame.cap.contains action &&
    isAuthorized fleet.grantIds fleet.grants frame.principal asset action

/-- The candidates of the frames, up to the first that cannot be narrowed. -/
def candidatesOf (asset : AssetRef) (action : CatalogAction) (ownerRoot : WarrantSpec) :
    List Frame → Except NarrowingError (List (ByteVec 32 × WarrantSpec))
  | [] => .ok []
  | frame :: rest =>
    match fleet.candidateAt asset action ownerRoot frame with
    | .error e => .error e
    | .ok found => (candidatesOf asset action ownerRoot rest).map (found.toList ++ ·)

end Frames

variable {fleet : GovernedFleet} {asset : AssetRef} {action : CatalogAction} {root : WarrantSpec}

section Loops

theorem candidatesOf_append (xs ys : List Frame) :
    candidatesOf fleet asset action root (xs ++ ys) =
      match candidatesOf fleet asset action root xs with
      | .error e => .error e
      | .ok found => (candidatesOf fleet asset action root ys).map (found ++ ·) := by
  induction xs with
  | nil =>
    simp only [nil_append, candidatesOf]
    cases candidatesOf fleet asset action root ys <;> rfl
  | cons frame xs ih =>
    simp only [cons_append, candidatesOf, ih]
    cases fleet.candidateAt asset action root frame with
    | error e => rfl
    | ok found =>
      cases candidatesOf fleet asset action root xs with
      | error e => rfl
      | ok more =>
        cases candidatesOf fleet asset action root ys with
        | error e => rfl
        | ok last => simp [Except.map]

variable {search : Search}

/-- The edges of a frame, in terms of the frames they make. -/
theorem resolveEdges_eq (hsteps : search.steps + budget = MAX_RESOLUTION_STEPS) :
    fleet.resolveEdges asset action root frame es search =
      (candidatesOf fleet asset action root (expand frameNext frame budget es).1).map fun found =>
        ⟨(expand frameNext frame budget es).1.reverse ++ search.stack,
          MAX_RESOLUTION_STEPS - (expand frameNext frame budget es).2,
          search.candidates ++ found⟩ := by
  induction es generalizing search budget with
  | nil =>
    have hback : MAX_RESOLUTION_STEPS - budget = search.steps := by omega
    simp [GovernedFleet.resolveEdges, expand, candidatesOf, Except.map, hback]
  | cons edge es ih =>
    rw [GovernedFleet.resolveEdges]
    cases budget with
    | zero =>
      have hspent : search.steps = MAX_RESOLUTION_STEPS := hsteps
      rw [if_pos hspent.ge]
      simp [expand, candidatesOf, Except.map, ← hspent]
    | succ budget =>
      have hnext : search.steps + 1 + budget = MAX_RESOLUTION_STEPS := by omega
      rw [if_neg (by omega)]
      split
      · rename_i hseen
        rw [ih hnext]
        simp [expand, frameNext, hseen]
      rename_i hnew
      simp only [expand, frameNext, hnew, if_false, candidatesOf]
      cases fleet.candidateAt asset action root (frame.child edge) with
      | error e => rfl
      | ok found =>
        dsimp only
        rw [ih hnext]
        cases candidatesOf fleet asset action root (expand frameNext frame budget es).1 with
        | error e => rfl
        | ok more => simp [Except.map]

theorem resolveLoop_eq (hsteps : search.steps + budget = MAX_RESOLUTION_STEPS) :
    fleet.resolveLoop asset action root fuel search =
      (candidatesOf fleet asset action root
        (walk (frameEdges fleet) frameNext fuel budget search.stack)).map
          (search.candidates ++ ·) := by
  induction fuel generalizing search budget with
  | zero => simp [GovernedFleet.resolveLoop, walk, candidatesOf, Except.map]
  | succ fuel ih =>
    obtain ⟨stack, steps, candidates⟩ := search
    cases stack with
    | nil => simp [GovernedFleet.resolveLoop, walk, candidatesOf, Except.map]
    | cons frame stack =>
      have hstart : (⟨stack, steps, candidates⟩ : Search).steps + budget =
        MAX_RESOLUTION_STEPS := hsteps
      simp only [GovernedFleet.resolveLoop, walk]
      split
      · rename_i hdeep
        rw [ih hstart]
        simp [frameEdges, hdeep, expand]
      rename_i hdepth
      have hedges : frameEdges fleet frame = fleet.memberEdges frame.principal := by
        simp [frameEdges, hdepth]
      have hle : (expand frameNext frame budget (fleet.memberEdges frame.principal)).2 ≤ budget :=
        le_trans (Nat.le_add_left _ _) (length_expand_le _ _ _)
      rw [resolveEdges_eq hstart, candidatesOf_append, hedges]
      generalize expand frameNext frame budget (fleet.memberEdges frame.principal) = made at hle
      cases candidatesOf fleet asset action root made.1 with
      | error e => rfl
      | ok found =>
        have hback : MAX_RESOLUTION_STEPS - made.2 + made.2 = MAX_RESOLUTION_STEPS := by
          omega
        simp only [Except.map]
        split
        · rename_i hspent
          have hzero : made.2 = 0 := by omega
          simp [hzero, walk_zero, candidatesOf]
        rw [ih hback]
        cases candidatesOf fleet asset action root (walk (frameEdges fleet) frameNext fuel
            made.2 (made.1.reverse ++ stack)) with
        | error e => rfl
        | ok more => simp [Except.map]

theorem resolveLoop_start (member : PartyId) :
    (fleet.resolveLoop asset action root fuel ⟨[⟨member, [], .all, []⟩], 0, []⟩).map
      mostPermissive = (candidatesOf fleet asset action root (walk (frameEdges fleet) frameNext
        fuel MAX_RESOLUTION_STEPS [⟨member, [], .all, []⟩])).map mostPermissive := by
  rw [resolveLoop_eq (Nat.zero_add MAX_RESOLUTION_STEPS)]
  cases candidatesOf fleet asset action root _ <;> rfl

/-- Every frame is made for one of the steps, so the walk ends by itself. -/
theorem resolveLoop_of_le (hfuel : MAX_RESOLUTION_STEPS + 1 ≤ fuel) (member : PartyId) :
    (fleet.resolveLoop asset action root fuel ⟨[⟨member, [], .all, []⟩], 0, []⟩).map
      mostPermissive = fleet.resolveMemberWarrant asset action root member := by
  rw [GovernedFleet.resolveMemberWarrant, resolveLoop_start, resolveLoop_start,
    walk_of_le hfuel le_rfl]
  rfl

theorem resolveMemberWarrant_eq (member : PartyId) :
    fleet.resolveMemberWarrant asset action root member =
      (candidatesOf fleet asset action root (framesFrom fleet member)).map mostPermissive :=
  resolveLoop_start member

/-- The edges of a frame: an answer among the frames they make, no budget, or the frames. -/
theorem probeEdges_eq {frame : ProbeFrame} {es : List TeamEdge} {stack : List ProbeFrame}
    {steps budget : Nat} (hsteps : steps + budget = MAX_RESOLUTION_STEPS) :
    ((expand probeNext frame budget es).1.any (answers fleet asset action) = true ∧
      fleet.probeEdges asset action frame es (stack, steps) = .error true) ∨
    ((expand probeNext frame budget es).1.any (answers fleet asset action) = false ∧
      ((expand probeNext frame budget es).2 = 0 ∧
          fleet.probeEdges asset action frame es (stack, steps) = .error false ∨
        fleet.probeEdges asset action frame es (stack, steps) =
          .ok ((expand probeNext frame budget es).1.reverse ++ stack,
            MAX_RESOLUTION_STEPS - (expand probeNext frame budget es).2))) := by
  induction es generalizing stack steps budget with
  | nil =>
    have hback : MAX_RESOLUTION_STEPS - budget = steps := by omega
    simp [GovernedFleet.probeEdges, expand, hback]
  | cons edge es ih =>
    rw [GovernedFleet.probeEdges]
    cases budget with
    | zero =>
      rw [if_pos (by omega)]
      simp [expand]
    | succ budget =>
      have hnext : steps + 1 + budget = MAX_RESOLUTION_STEPS := by omega
      rw [if_neg (by omega)]
      split
      · rename_i hseen
        have hrest := @ih stack (steps + 1) budget hnext
        simpa [expand, probeNext, hseen] using hrest
      rename_i hnew
      have hmade : expand probeNext frame (budget + 1) (edge :: es) =
          (frame.child edge :: (expand probeNext frame budget es).1,
            (expand probeNext frame budget es).2) := by
        simp [expand, probeNext, hnew]
      rw [hmade]
      split
      · rename_i hanswers
        exact .inl ⟨by simpa [answers, ProbeFrame.child] using Or.inl hanswers, rfl⟩
      rename_i hsilent
      have hno : answers fleet asset action (frame.child edge) = false := by
        simpa [answers, ProbeFrame.child] using hsilent
      have hrest := @ih (frame.child edge :: stack) (steps + 1) budget hnext
      simpa [hno] using hrest

theorem probeLoop_eq {fuel : Nat} {stack : List ProbeFrame} {steps budget : Nat}
    (hsteps : steps + budget = MAX_RESOLUTION_STEPS) :
    fleet.probeLoop asset action fuel (stack, steps) =
      (walk (probeFrameEdges fleet) probeNext fuel budget stack).any
        (answers fleet asset action) := by
  induction fuel generalizing stack steps budget with
  | zero => rfl
  | succ fuel ih =>
    cases stack with
    | nil => rfl
    | cons frame stack =>
      simp only [GovernedFleet.probeLoop, walk, any_append]
      split
      · rename_i hdeep
        rw [ih hsteps]
        simp [probeFrameEdges, hdeep, expand]
      rename_i hdepth
      have hedges : probeFrameEdges fleet frame = fleet.memberEdges frame.principal := by
        simp [probeFrameEdges, hdepth]
      have hle : (expand probeNext frame budget (fleet.memberEdges frame.principal)).2 ≤ budget :=
        le_trans (Nat.le_add_left _ _) (length_expand_le _ _ _)
      rw [hedges]
      rcases @probeEdges_eq fleet asset action frame (fleet.memberEdges frame.principal) stack
        steps budget hsteps with ⟨hany, hanswer⟩ | ⟨hany, ⟨hzero, hanswer⟩ | hanswer⟩
      · rw [hanswer, hany]
        rfl
      · rw [hanswer, hany, hzero, walk_zero]
        rfl
      rw [hanswer, hany]
      dsimp only
      rw [ih (Nat.sub_add_cancel (by omega))]
      rfl

/-- The frames of the one walk are those of the other: as many roles as teams seen. -/
theorem isMemberAuthorized_eq (member : PartyId) :
    fleet.isMemberAuthorized asset action member =
      (framesFrom fleet member).any fun frame => answers fleet asset action frame.probe := by
  have hframes : (framesFrom fleet member).map Frame.probe =
      walk (probeFrameEdges fleet) probeNext (MAX_RESOLUTION_STEPS + 1) MAX_RESOLUTION_STEPS
        [⟨member, .all, []⟩] := by
    apply map_walk (P := fun frame : Frame => frame.roles.length = frame.seen.length)
    · intro frame hframe
      unfold probeFrameEdges frameEdges
      rw [hframe]
      rfl
    · intro frame edge _
      unfold probeNext frameNext
      change (if edge.team ∈ frame.seen then none else some (frame.probe.child edge)) = _
      split <;> rfl
    · intro frame edge child hframe hchild
      unfold frameNext at hchild
      split at hchild
      · cases hchild
      cases hchild
      simp [Frame.child, hframe]
    · simp
  unfold GovernedFleet.isMemberAuthorized
  rw [probeLoop_eq (Nat.zero_add MAX_RESOLUTION_STEPS), ← hframes, any_map]
  rfl

end Loops

inductive ActivePath (fleet : GovernedFleet) (member : PartyId) : List TeamEdge → PartyId → Prop
  | start : ActivePath fleet member [] member
  | up {path : List TeamEdge} {principal : PartyId} {e : TeamEdge}
      (hpath : ActivePath fleet member path principal) (he : e ∈ fleet.memberEdges principal) :
      ActivePath fleet member (path ++ [e]) e.team

structure Frame.At (fleet : GovernedFleet) (member : PartyId) (path : List TeamEdge)
    (frame : Frame) : Prop where
  active : ActivePath fleet member path frame.principal
  roles : frame.roles = path.map TeamEdge.role
  cap : ∀ action, frame.cap.contains action = true ↔
    ∀ e ∈ path, e.actionCap.contains action = true

section Paths

variable {member : PartyId} {frame : Frame} {cands : List (ByteVec 32 × WarrantSpec)}

theorem Frame.At.child (hat : frame.At fleet member path)
    (he : e ∈ fleet.memberEdges frame.principal) :
    (frame.child e).At fleet member (path ++ [e]) where
  active := hat.active.up he
  roles := by simp [Frame.child, hat.roles]
  cap := by
    intro action
    simp only [Frame.child, CatalogActionSet.contains_narrow, Bool.and_eq_true, hat.cap,
      forall_mem_append, forall_mem_singleton]

theorem exists_path_of_mem_framesFrom (hframe : frame ∈ framesFrom fleet member) :
    ∃ path ≠ [], frame.At fleet member path := by
  have hedges : ∀ frame e, e ∈ frameEdges fleet frame → e ∈ fleet.memberEdges frame.principal := by
    intro frame e he
    unfold frameEdges at he
    split at he
    · cases he
    · exact he
  have hchild : ∀ {frame e child}, frameNext frame e = some child → child = frame.child e := by
    intro frame e child hnext
    unfold frameNext at hnext
    split at hnext
    · cases hnext
    · exact (Option.some.inj hnext).symm
  have hmade := exists_of_mem_walk (P := fun frame => ∃ path, frame.At fleet member path) ?_ ?_
    frame hframe
  · obtain ⟨below, ⟨path, hat⟩, e, he, hnext⟩ := hmade
    rw [hchild hnext]
    exact ⟨path ++ [e], by simp, hat.child (hedges below e he)⟩
  · rintro below e child ⟨path, hat⟩ he hnext
    rw [hchild hnext]
    exact ⟨path ++ [e], hat.child (hedges below e he)⟩
  · intro start hstart
    rw [mem_singleton.1 hstart]
    exact ⟨[], .start, rfl, by simp⟩

theorem candidateAt_ok_some
    (hcandidate : fleet.candidateAt asset action root frame = .ok (some candidate)) :
    frame.cap.contains action = true ∧ ∃ teamWarrant,
      resolveEffectiveWarrantFor fleet.grantIds fleet.grants frame.principal asset action root =
        .ok (some teamWarrant) ∧
      frame.roles.reverse.foldlM intersect teamWarrant = .ok candidate.2 := by
  unfold GovernedFleet.candidateAt at hcandidate
  split at hcandidate
  · rename_i hcap
    refine ⟨hcap, ?_⟩
    split at hcandidate
    · cases hcandidate
    · cases hcandidate
    rename_i teamWarrant hteam
    cases hroles : frame.roles.reverse.foldlM intersect teamWarrant with
    | error e => simp [hroles, Except.map] at hcandidate
    | ok w =>
      simp only [hroles, Except.map, Except.ok.injEq, Option.some.injEq] at hcandidate
      subst hcandidate
      exact ⟨teamWarrant, hteam, hroles⟩
  · cases hcandidate

/-- Where nothing fails to narrow, a frame contributes exactly if it answers the query. -/
theorem isSome_candidateAt (hcandidate : fleet.candidateAt asset action root frame = .ok found) :
    found.isSome = true ↔ answers fleet asset action frame.probe = true := by
  unfold answers
  rw [Bool.and_eq_true]
  change _ ↔ frame.cap.contains action = true ∧
    isAuthorized fleet.grantIds fleet.grants frame.principal asset action = true
  unfold GovernedFleet.candidateAt at hcandidate
  split at hcandidate
  · rename_i hcap
    split at hcandidate
    · cases hcandidate
    · rename_i hteam
      cases hcandidate
      have hiff := Catalog.isSome_resolveEffectiveWarrantFor hteam
      simpa [hcap] using hiff
    · rename_i teamWarrant hteam
      have hiff := Catalog.isSome_resolveEffectiveWarrantFor hteam
      cases hroles : frame.roles.reverse.foldlM intersect teamWarrant with
      | error e => simp [hroles, Except.map] at hcandidate
      | ok w =>
        simp only [hroles, Except.map, Except.ok.injEq] at hcandidate
        subst hcandidate
        simpa [hcap] using hiff
  · rename_i hcap
    cases hcandidate
    simp [hcap]

theorem candidatesOf_ok (hcands : candidatesOf fleet asset action root frames = .ok cands) :
    (∀ frame ∈ frames, ∃ found, fleet.candidateAt asset action root frame = .ok found) ∧
    ∀ c, c ∈ cands ↔ ∃ frame ∈ frames,
      fleet.candidateAt asset action root frame = .ok (some c) := by
  induction frames generalizing cands with
  | nil =>
    simp only [candidatesOf, Except.ok.injEq] at hcands
    subst hcands
    simp
  | cons frame rest ih =>
    simp only [candidatesOf] at hcands
    split at hcands
    · cases hcands
    rename_i found hfound
    cases hrest : candidatesOf fleet asset action root rest with
    | error e => simp [hrest, Except.map] at hcands
    | ok later =>
      rw [hrest] at hcands
      simp only [Except.map, Except.ok.injEq] at hcands
      subst hcands
      obtain ⟨hok, hmem⟩ := ih hrest
      constructor
      · intro frame' hframe'
        rcases mem_cons.1 hframe' with rfl | hlater
        · exact ⟨found, hfound⟩
        · exact hok frame' hlater
      · intro c
        rw [mem_append, hmem]
        simp [hfound]

/-- The scan ends with one of the candidates; one that it passed over was not as wide as the
best one then, nor as any later one. -/
theorem foldl_prefer (cands : List (ByteVec 32 × WarrantSpec)) (b : ByteVec 32 × WarrantSpec) :
    ∃ c ∈ b :: cands, cands.foldl prefer (some b) = some c ∧ warrantWithin b.2 c.2 = true ∧
      ∀ d ∈ cands, warrantWithin c.2 d.2 = true → warrantWithin d.2 c.2 = true := by
  induction cands generalizing b with
  | nil => exact ⟨b, by simp, rfl, Catalog.warrantWithin_iff.2 ⟨.refl b.2, by simp⟩, by simp⟩
  | cons first rest ih =>
    rw [foldl_cons, prefer]
    split_ifs with hwider
    · obtain ⟨c, hc, hfold, hbelow, hrest⟩ := ih first
      refine ⟨c, mem_cons_of_mem _ hc, hfold, warrantWithin_trans hwider hbelow, ?_⟩
      exact forall_mem_cons.2 ⟨fun _ => hbelow, hrest⟩
    · obtain ⟨c, hc, hfold, hbelow, hrest⟩ := ih b
      refine ⟨c, ?_, hfold, hbelow, forall_mem_cons.2 ⟨fun habove => ?_, hrest⟩⟩
      · rcases mem_cons.1 hc with rfl | hc
        · exact mem_cons_self
        · exact mem_cons_of_mem _ (mem_cons_of_mem _ hc)
      · exact absurd (warrantWithin_trans hbelow habove) hwider

abbrev inAnchorOrder (cands : List (ByteVec 32 × WarrantSpec)) : List (ByteVec 32 × WarrantSpec) :=
  cands.insertionSort fun x y => (compare x.1 y.1).isLE = true

/-- The fleet chooses a widest candidate. -/
theorem widest_of_mostPermissive (hne : cands ≠ []) :
    ∃ c, Widest Prod.snd cands c ∧ mostPermissive cands = some c.2 := by
  have hperm : (inAnchorOrder cands).Perm cands := perm_insertionSort _ cands
  cases hsorted : inAnchorOrder cands with
  | nil => exact absurd (hsorted ▸ hperm).symm.eq_nil hne
  | cons first rest =>
    rw [hsorted] at hperm
    obtain ⟨c, hc, hfold, hbelow, hrest⟩ := foldl_prefer rest first
    have hwidest : Widest Prod.snd (first :: rest) c :=
      ⟨hc, forall_mem_cons.2 ⟨fun _ => hbelow, hrest⟩⟩
    refine ⟨c, hwidest.perm hperm, ?_⟩
    change ((inAnchorOrder cands).foldl prefer none).map Prod.snd = some c.2
    rw [hsorted]
    exact congrArg _ hfold

theorem isSome_mostPermissive : (mostPermissive cands).isSome = true ↔ cands ≠ [] := by
  constructor
  · rintro hsome rfl
    cases hsome
  · intro hne
    obtain ⟨c, -, hmost⟩ := widest_of_mostPermissive hne
    rw [hmost]
    rfl

theorem mem_of_mostPermissive (hmost : mostPermissive cands = some w) : ∃ c ∈ cands, c.2 = w := by
  have hne : cands ≠ [] := isSome_mostPermissive.1 (by simp [hmost])
  obtain ⟨c, hwidest, hchosen⟩ := widest_of_mostPermissive hne
  exact ⟨c, hwidest.1, Option.some.inj (hchosen.symm.trans hmost)⟩

end Paths

/-- Nested membership never escalates, and the two queries agree. Unless a role or a grant
fails to narrow, a warrant is resolved exactly if the member is authorised; and a warrant
that is resolved is contained in the owner's and in that of the team at the top of a path of
memberships, all of which convey the action. -/
theorem nested_membership_never_escalates (fleet : GovernedFleet) (member : PartyId)
    (asset : AssetRef) (action : CatalogAction) (root : WarrantSpec) (res : Option WarrantSpec)
    (hres : fleet.resolveMemberWarrant asset action root member = .ok res) :
    (res.isSome = true ↔ fleet.isMemberAuthorized asset action member = true) ∧
    ∀ w, res = some w → w.Contained root ∧ ∃ path top teamWarrant,
      path ≠ [] ∧ ActivePath fleet member path top ∧
      (∀ e ∈ path, e.actionCap.contains action = true) ∧
      resolveEffectiveWarrantFor fleet.grantIds fleet.grants top asset action root =
        .ok (some teamWarrant) ∧
      w.Contained teamWarrant := by
  rw [resolveMemberWarrant_eq] at hres
  cases hcands : candidatesOf fleet asset action root (framesFrom fleet member) with
  | error e => simp [hcands, Except.map] at hres
  | ok cands =>
    simp only [hcands, Except.map, Except.ok.injEq] at hres
    subst hres
    obtain ⟨hok, hmem⟩ := candidatesOf_ok hcands
    constructor
    · rw [isSome_mostPermissive, isMemberAuthorized_eq, any_eq_true]
      constructor
      · intro hne
        obtain ⟨c, hc⟩ := exists_mem_of_ne_nil _ hne
        obtain ⟨frame, hframe, hcandidate⟩ := (hmem c).1 hc
        exact ⟨frame, hframe, (isSome_candidateAt hcandidate).1 rfl⟩
      · rintro ⟨frame, hframe, hanswers⟩
        obtain ⟨found, hfound⟩ := hok frame hframe
        obtain ⟨c, rfl⟩ :=
          Option.isSome_iff_exists.1 ((isSome_candidateAt hfound).2 hanswers)
        exact ne_nil_of_mem ((hmem c).2 ⟨frame, hframe, hfound⟩)
    · intro w hw
      obtain ⟨c, hc, rfl⟩ := mem_of_mostPermissive hw
      obtain ⟨frame, hframe, hcandidate⟩ := (hmem c).1 hc
      obtain ⟨hcap, teamWarrant, hteam, hroles⟩ := candidateAt_ok_some hcandidate
      obtain ⟨path, hne, hat⟩ := exists_path_of_mem_framesFrom hframe
      have hwithin : c.2.Within teamWarrant := foldlM_descends WarrantSpec.Within.refl
        WarrantSpec.Within.trans WarrantSpec.Within.of_intersect hroles
      have hroot : teamWarrant.Within root := Catalog.resolveEffectiveWarrantFor_within hteam
      exact ⟨(hwithin.trans hroot).contained, path, frame.principal, teamWarrant, hne,
        hat.active, (hat.cap action).1 hcap, hteam, hwithin.contained⟩

section Sample

open Catalog

def guestWarrant : WarrantSpec where
  modelRoute := ⟨"small", 1000, 500, 2⟩
  costCeiling := ⟨900⟩

def guestRole : Role := ⟨"guest", 1, guestWarrant, ""⟩

def adminWarrant : WarrantSpec where
  modelRoute := ⟨"large", 8000, 2000, 10⟩
  costCeiling := ⟨500⟩

def traineeWarrant : WarrantSpec where
  modelRoute := ⟨"small", 1000, 500, 1⟩
  costCeiling := ⟨300⟩

/-- Team ops is a member of team platform, which holds the grant. -/
def opsFleet : GovernedFleet where
  memberIds := sampleIds
  members := ledgerAfter sampleIds [.append (.found opsTeam),
    .append (.found ⟨FLEET_SCHEMA_VERSION, "platform", "petra", "Platform"⟩),
    .append (.admission ⟨FLEET_SCHEMA_VERSION, "platform", "ops", "petra", guestRole, maintainer⟩),
    .append (.admission ⟨FLEET_SCHEMA_VERSION, "ops", "dan", "olga",
      ⟨"trainee", 1, traineeWarrant, ""⟩, maintainer⟩)]
  grantIds := sharingIds
  grants := Catalog.ledgerAfter sharingIds [.binding ⟨report, "admin"⟩,
    .grant (.root report "admin" "platform" (listed [.use]) guestRole)]
  blake3 := sampleIds.blake3
  encodePath team _ := utf8Bytes team

/-- The team of the member has no grant of its own: the warrant comes from the team above. -/
theorem nested_membership_never_escalates_opsFleet :
    resolveEffectiveWarrantFor sharingIds opsFleet.grants "ops" report .use adminWarrant =
        .ok none ∧
      opsFleet.isMemberAuthorized report .use "dan" = true ∧
      ∃ w, opsFleet.resolveMemberWarrant report .use adminWarrant "dan" = .ok (some w) ∧
        w.Contained adminWarrant := by
  have hres : opsFleet.resolveMemberWarrant report .use adminWarrant "dan" =
      .ok (some traineeWarrant) := by
    decide +kernel
  obtain ⟨hiff, hcontained⟩ :=
    nested_membership_never_escalates opsFleet "dan" report .use adminWarrant _ hres
  exact ⟨by decide +kernel, hiff.1 rfl, _, hres, (hcontained _ rfl).1⟩

end Sample

end Kortecx.Fleet
