import Kortecx.Coordinator.Chains

/-!
The functions that drive a chain, followed step by step: as long as the journal takes what
they note, every fact they note goes on from the last fact of its chain.
-/

namespace Kortecx.Coordinator

open Lib Mote Journal Projection Warrant Platform List Lib.Program

def InOrder {J : Backend} (rel : J.State → List JournalEntry → Prop) (w : Core J) : Prop :=
  ∃ log, Mirrored rel w log ∧ Orderly log

/-- The facts of the chains, and what the journal says of the Motes, are the same. -/
structure Unmoved {J : Backend} (w w' : Core J) : Prop where
  rounds : ∀ chain : ChainKey,
    w'.projection.reactRoundsOf chain.1 chain.2 = w.projection.reactRoundsOf chain.1 chain.2
  info : ∀ id, (w'.projection.info id).undeclared = (w.projection.info id).undeclared

variable {J : Backend}

namespace Unmoved

variable {w w' w'' : Core J}

theorem refl (w : Core J) : Unmoved w w := ⟨fun _ => rfl, fun _ => rfl⟩

theorem trans (h : Unmoved w w') (h' : Unmoved w' w'') : Unmoved w w'' :=
  ⟨fun chain => (h'.rounds chain).trans (h.rounds chain), fun id => (h'.info id).trans (h.info id)⟩

theorem stateOfId (h : Unmoved w w') (id : MoteId) :
    w'.projection.stateOfId id = w.projection.stateOfId id := by
  rw [State.stateOfId_eq_state, State.stateOfId_eq_state]
  have hstate : ∀ info : MoteInfo, info.state = info.undeclared.state := fun _ => rfl
  rw [hstate, h.info id, ← hstate]

end Unmoved

/-- The journal takes what is appended, and what is put into the store is among the texts. -/
def Lasting {J : Backend} (written : Set (List UInt8)) (w : Core J) (e : Effect) : Prop :=
  Faultless w e ∧ Writes written e

variable {rel : J.State → List JournalEntry → Prop} {w : Core J} {α β : Type}
  {written : Set (List UInt8)}

section Steps

variable (P : Platform)

/-- As long as the journal takes what the program notes, the program places its facts, and
it answers and leaves what `R` says. -/
abbrev Platform.Drives (written : Set (List UInt8)) (p : Routine J α) (w : Core J)
    (R : α → Core J → Prop) : Prop :=
  p.Yields (tend P.ids.blake3 J) (fun w c => Lasting written w (.chore c))
    (fun w c => PlacesFacts P written w (.chore c)) w R

variable {P}

theorem drives_look_bind {f : Core J → Routine J α} {R : α → Core J → Prop}
    (hf : P.Drives written (f w) w R) : P.Drives written (look >>= f) w R :=
  yields_tend_look_bind trivial hf

/-- The chain with a given key goes on from its last fact. -/
theorem InOrder.grown (hw : InOrder rel w) (chain : ChainKey) {front : List ReactRoundRecord}
    {last : ReactRoundRecord}
    (hrounds : w.projection.reactRoundsOf chain.1 chain.2 = front ++ [last]) :
    Grown front last := by
  obtain ⟨log, hmirrored, horderly⟩ := hw
  rw [hmirrored.chainRounds_eq chain] at hrounds
  exact horderly.grown hrounds

variable (hJ : J.ReadsBack P.ids.blake3 rel)
include hJ

variable {c : Chore}

/-- One effect, and what it leaves. -/
theorem InOrder.perform {e : Effect} (hw : InOrder rel w) (hguarded : P.Guarded w e)
    (hfault : Faultless w e) (hplaces : PlacesFacts P written w e) :
    InOrder rel (perform P.ids.blake3 J e w).2 := by
  obtain ⟨log, hmirrored, horderly⟩ := hw
  obtain ⟨new, hdid, hmirrored', -⟩ := hmirrored.perform hJ hguarded hfault.1
  exact ⟨log ++ new, hmirrored', horderly.did hmirrored hguarded hplaces hdid⟩

variable (hw : InOrder rel w) (hfault : Faultless w (.chore c))

include hw hfault

theorem InOrder.tend (hplaces : PlacesFacts P written w (.chore c)) :
    InOrder rel (tend P.ids.blake3 J c w).2 :=
  hw.perform (e := .chore c) hJ trivial hfault hplaces

/-- No chore changes what the journal says of a Mote. -/
theorem undeclared_tend (id : MoteId) :
    (((Coordinator.tend P.ids.blake3 J c w).2.projection).info id).undeclared =
      (w.projection.info id).undeclared := by
  obtain ⟨log, hmirrored, -⟩ := hw
  have hguarded : P.Guarded w (.chore c) := trivial
  obtain ⟨new, hdid, -⟩ := hmirrored.perform hJ hguarded hfault.1
  refine hdid.info_preserves (R := fun info => info.undeclared = _) ?_ ?_ rfl
  · intro info info' hsame hinfo
    exact hsame.trans hinfo
  intro x hx hsubject
  obtain ⟨y, hy, n, rfl⟩ := hdid.exists_entry hx
  cases c with
  | note fact strict =>
    rw [mem_singleton.1 hy] at hsubject
    cases fact <;> cases hsubject
  | _ => cases hy

/-- A chore that notes no chain fact leaves all chains as they were. -/
theorem unmoved_tend (homits : c.Omits .reactRound) :
    Unmoved w (Coordinator.tend P.ids.blake3 J c w).2 := by
  refine ⟨?_, undeclared_tend hJ hw hfault⟩
  intro chain
  obtain ⟨log, hmirrored, -⟩ := hw
  have hguarded : P.Guarded w (.chore c) := trivial
  obtain ⟨new, hdid, hmirrored', -⟩ := hmirrored.perform hJ hguarded hfault.1
  have hrounds := hmirrored'.chainRounds_eq chain
  rw [chainRounds_append, hdid.chainRounds_of_omits hguarded homits chain, append_nil,
    ← hmirrored.chainRounds_eq chain] at hrounds
  exact hrounds

omit hw hfault in
/-- A program that notes no chain fact leaves all chains as they were. -/
theorem drives_of_quiet {p : Routine J α} (hp : Quiet .reactRound p) (hw : InOrder rel w) :
    P.Drives written p w fun _ w' => InOrder rel w' ∧ Unmoved w w' where
  asLong :=
    (hp.along (fun _ c homits => placesFacts_of_omits P written (e := .chore c) homits) w).asLong
  post := by
    intro hsmooth
    have hquiet : p.Along (Coordinator.tend P.ids.blake3 J) (fun _ c => c.Omits .reactRound) w :=
      hp.along (fun _ _ h => h) w
    have hstep : ∀ w' c, InOrder rel w' ∧ Unmoved w w' →
        Lasting written w' (.chore c) ∧ c.Omits .reactRound →
        InOrder rel (Coordinator.tend P.ids.blake3 J c w').2 ∧
          Unmoved w (Coordinator.tend P.ids.blake3 J c w').2 := by
      rintro w' c ⟨hw', hsame⟩ ⟨⟨hfault, -⟩, homits⟩
      exact ⟨hw'.tend hJ hfault (placesFacts_of_omits P written (e := .chore c) homits),
        hsame.trans (unmoved_tend hJ hw' hfault homits)⟩
    exact (hsmooth.and hquiet).preserves hstep ⟨hw, .refl w⟩

end Steps

/-- Where a chain stands: its facts, the last of them, and its anchor. -/
structure Standing {J : Backend} (rel : J.State → List JournalEntry → Prop) (w : Core J)
    (front : List ReactRoundRecord) (anchor last : ReactRoundRecord) : Prop where
  order : InOrder rel w
  rounds : w.projection.reactRoundsOf anchor.instanceId anchor.stepSalt = front ++ [last]
  head : (front ++ [last]).head? = some anchor

variable {P : Platform} {instanceId : InstanceId}

section Functions

variable {w' : Core J} {front : List ReactRoundRecord} {anchor last : ReactRoundRecord}
  {warrant : WarrantSpec}

theorem Standing.grown (h : Standing rel w front anchor last) : Grown front last :=
  h.order.grown (anchor.instanceId, anchor.stepSalt) h.rounds

theorem Standing.of_unmoved (h : Standing rel w front anchor last) (hw' : InOrder rel w')
    (hsame : Unmoved w w') : Standing rel w' front anchor last :=
  ⟨hw', (hsame.rounds (anchor.instanceId, anchor.stepSalt)).trans h.rounds, h.head⟩

variable {r : ReactRound} {turnMoteId : MoteId} {turn : UInt32} {branch : ReactBranch}

theorem Standing.placed (h : Standing rel w front anchor last)
    (hr : Continues P w (front ++ [last]) anchor last r) : Placed P written w r := by
  have hrounds := h.rounds
  right
  refine ⟨front, last, anchor, ?_, h.head, hr⟩
  cases hr <;> exact hrounds

variable (hJ : J.ReadsBack P.ids.blake3 rel)
include hJ

variable (h : Standing rel w front anchor last)

include h

/-- Once the journal has taken the fact, the chain stands at it. -/
theorem Standing.noted (hr : Continues P w (front ++ [last]) anchor last r)
    (hfault : Faultless w (.chore (.note (.reactRound r hreadable) strict))) :
    ∃ seq, Standing rel (tend P.ids.blake3 J (.note (.reactRound r hreadable) strict) w).2
      (front ++ [last]) anchor { r with seq } := by
  have hplaces : PlacesFacts P Set.univ w (.chore (.note (.reactRound r hreadable) strict)) :=
    h.placed hr
  have hw' := h.order.tend hJ hfault hplaces
  obtain ⟨log, hmirrored, -⟩ := h.order
  have hguarded : P.Guarded w (.chore (.note (.reactRound r hreadable) strict)) := trivial
  obtain ⟨new, hdid, hmirrored', hrecorded, -⟩ := hmirrored.perform hJ hguarded hfault.1
  have hnew : new = [.reactRound { r with seq := UInt64.ofNat (log.length + 1) }] := by
    rcases hdid.new_of_reactRound with rfl | hnew
    · have hlength := congrArg List.length (hrecorded hfault.2)
      rw [Effect.entries, DedupLog.appendAll_cons, DedupLog.append_of_fresh rfl] at hlength
      simp [DedupLog.appendAll] at hlength
    · exact hnew
  subst hnew
  refine ⟨UInt64.ofNat (log.length + 1), hw', ?_, ?_⟩
  · have hrounds := hmirrored'.chainRounds_eq (anchor.instanceId, anchor.stepSalt)
    have hin : inChain anchor.instanceId anchor.stepSalt
        { r with seq := UInt64.ofNat (log.length + 1) } = true := by
      cases hr <;> simp [inChain, frozen]
    rw [chainRounds_append, ← hmirrored.chainRounds_eq, h.rounds, chainRounds_singleton hin]
      at hrounds
    exact hrounds
  · rw [List.head?_append, h.head]
    rfl

/-- A fact that continues a chain is appended, unless the turn has the branch already. -/
theorem drives_appendReactBranch (hr : Continues P w (front ++ [last]) anchor last
      { anchor with turn, turnMoteId, branch, seq := 0 }) :
    P.Drives written (appendReactBranch anchor turnMoteId turn branch hbranch) w fun _ w' =>
      InOrder rel w' ∧ ((∀ r ∈ front ++ [last], ¬ (r.turn = turn ∧ r.branch = branch)) →
        ∃ seq, Standing rel w' (front ++ [last]) anchor
          { anchor with turn, turnMoteId, branch, seq }) := by
  refine drives_look_bind ?_
  split_ifs with hany
  · refine yields_pure ⟨h.order, fun hnone => ?_⟩
    rw [h.rounds] at hany
    obtain ⟨r, hr, hsame⟩ := any_eq_true.1 hany
    exact absurd (of_decide_eq_true hsame) (hnone r hr)
  · refine Program.Yields.bind (yields_call fun hfault => ⟨h.placed hr, ?_⟩)
      fun _ w' hw' => yields_pure hw'
    obtain ⟨seq, hstanding⟩ := h.noted hJ hr hfault.1
    exact ⟨hstanding.order, fun _ => ⟨seq, hstanding⟩⟩

/-- A fact that is appended before something else is done. -/
theorem drives_append_then {α : Type} {hbranch : branch.Readable} {f : Unit → Routine J α}
    (hr : Continues P w (front ++ [last]) anchor last
      { anchor with turn, turnMoteId, branch, seq := 0 }) (hf : Quiet .reactRound (f ())) :
    P.Drives written (appendReactBranch anchor turnMoteId turn branch hbranch >>= f) w fun _ w' =>
      InOrder rel w' :=
  (drives_appendReactBranch hJ h hr).bind fun _ _ hw' =>
    (drives_of_quiet hJ hf hw'.1).mono fun _ _ hw'' => hw''.1

/-- Going on to the next turn, once the calls of this one have landed. -/
theorem drives_advanceReactChain (hspent : isSpent last.branch = true)
    (hlanded : ∀ i tool, (firedCalls last.branch)[i]? = some tool →
      w.projection.stateOfId (P.observationAt anchor last tool i).id = .committed) :
    P.Drives written (P.advanceReactChain anchor (front ++ [last]) last.turn) w fun _ w' =>
      InOrder rel w' := by
  have hopen : isOpen last.branch = true := by
    cases hbranch : last.branch <;> rw [hbranch] at hspent <;> first | rfl | cases hspent
  have hlatest := h.grown.latestOfTurn_eq
  have hdone : ∀ status, P.Drives written (pure status : Routine J ReactChainStatus) w fun _ w' =>
      InOrder rel w' := fun _ => yields_pure h.order
  unfold advanceReactChain
  dsimp only
  split_ifs with hnext hbudget
  · exact hdone _
  · rw [hlatest]
    dsimp only
    split
    · exact drives_append_then hJ h (.gaveUp hopen) (only_pure _)
    · exact drives_append_then hJ h (.gaveUp hopen) (only_pure _)
    · exact drives_append_then hJ h (.gaveUp hopen) (only_pure _)
    · exact hdone _
  · rw [not_or] at hbudget
    refine drives_look_bind ?_
    split
    · exact hdone _
    rename_i baseBytes hbase
    split
    · exact hdone _
    rename_i instruction hinstruction
    split
    · exact hdone _
    rename_i warrant hwarrant
    obtain ⟨store, hstore, hget⟩ := Option.bind_eq_some_iff.1 hbase
    rw [hstore, Option.bind_some] at hwarrant
    rw [hlatest, Option.bind_some]
    refine drives_append_then hJ h ?_ ?_
    · exact .advanced hspent hlanded (UInt32.not_le.1 hbudget.1) (UInt32.not_le.1 hbudget.2)
        hstore (by rw [hget]; exact hinstruction) hwarrant
    · exact (quiet_materialize ..).bind fun _ => only_pure _

def CallProgress.Leaves (w w' : Core J) (rel : J.State → List JournalEntry → Prop)
    (front : List ReactRoundRecord) (anchor last : ReactRoundRecord) (landed : Prop) :
    CallProgress → Prop
  | .landed => w' = w ∧ landed
  | .outstanding => Standing rel w' front anchor last
  | .stop _ => InOrder rel w'

/-- One call of a batch: it fails, is made or waits, or has landed. -/
theorem drives_progressCall {tool : String × String} {i : Nat}
    (htool : (firedCalls last.branch)[i]? = some tool) :
    P.Drives written
      (P.progressCall anchor warrant last.turn last.turnMoteId tool.1 tool.2 (u32OfNat i)) w
      fun progress w' => progress.Leaves w w' rel front anchor last
        (w.projection.stateOfId (P.observationAt anchor last tool i).id = .committed) := by
  have hopen : isOpen last.branch = true := by
    refine (isOpen_of_fired fun hnil => ?_).1
    rw [hnil] at htool
    cases htool
  refine drives_look_bind ?_
  dsimp only
  split_ifs with hcommitted hterminal hretry hunresolvable
  · exact yields_pure ⟨rfl, hcommitted⟩
  · exact yields_pure h.order
  · have hfailed : AtEnd w.projection (P.observationAt anchor last tool i).id :=
      ⟨hterminal, Bool.eq_false_of_not_eq_true hretry⟩
    exact (drives_appendReactBranch hJ h (.superseded _ htool hfailed hcommitted)).bind fun _ _ hw' =>
      yields_pure hw'.1
  · refine (drives_appendReactBranch hJ h (.gaveUp hopen)).bind fun _ w' hw' => ?_
    have hretire : ∀ id, Quiet .reactRound (do
        edit (.expel id); edit (.undefine id); edit (.resolve id) : Routine J Unit) := fun id =>
      (quiet_edit _).bind fun _ => (quiet_edit _).bind fun _ => quiet_edit _
    exact (drives_of_quiet hJ (hretire _) hw'.1).bind fun _ _ hw'' => yields_pure hw''.1
  · refine (drives_of_quiet hJ (quiet_approvalBarrier (by decide)) h.order).bind
      fun gate w' hw' => ?_
    have hstanding : Standing rel w' front anchor last := h.of_unmoved hw'.1 hw'.2
    split
    · exact yields_pure hstanding
    · exact (drives_appendReactBranch hJ hstanding (.gaveUp hopen)).bind fun _ _ hw'' =>
        yields_pure hw''.1
    refine (drives_of_quiet hJ (quiet_materialize ..) hw'.1).bind fun _ _ hw'' => ?_
    exact yields_pure (hstanding.of_unmoved hw''.1 hw''.2)

/-- The calls of a batch, one after the other. If all have landed, nothing was done. -/
theorem drives_progressCalls {calls : List ((String × String) × Nat)}
    (hcalls : ∀ call ∈ calls, (firedCalls last.branch)[call.2]? = some call.1) :
    P.Drives written (P.progressCalls anchor warrant last.turn last.turnMoteId calls) w
      fun progress w' => progress.Leaves w w' rel front anchor last (∀ call ∈ calls,
        w.projection.stateOfId (P.observationAt anchor last call.1 call.2).id = .committed) := by
  induction calls generalizing w with
  | nil => exact yields_pure ⟨rfl, by simp⟩
  | cons call calls ih =>
    obtain ⟨tool, i⟩ := call
    have hrest : ∀ call ∈ calls, (firedCalls last.branch)[call.2]? = some call.1 :=
      fun call hcall => hcalls call (mem_cons_of_mem _ hcall)
    refine (drives_progressCall hJ h (hcalls _ mem_cons_self)).bind fun progress w' hw' => ?_
    cases progress with
    | stop status => exact yields_pure hw'
    | landed =>
      obtain ⟨rfl, hlanded⟩ := hw'
      refine (ih h hrest).mono fun progress w'' hw'' => ?_
      cases progress with
      | landed =>
        refine ⟨hw''.1, ?_⟩
        intro call hcall
        rcases mem_cons.1 hcall with rfl | hcall
        · exact hlanded
        · exact hw''.2 call hcall
      | outstanding | stop _ => exact hw''
    | outstanding =>
      refine (ih hw' hrest).bind fun progress w'' hw'' => ?_
      cases progress with
      | stop _ | outstanding => exact yields_pure hw''
      | landed =>
        obtain ⟨rfl, -⟩ := hw''
        exact yields_pure hw'

/-- The calls of a turn are driven; when all have landed, the chain goes on. -/
theorem drives_progressToolBatch (hfires : firesTool last.branch = true) :
    P.Drives written (P.progressToolBatch anchor (front ++ [last]) last.turn last.turnMoteId
      (firedCalls last.branch)) w fun _ w' => InOrder rel w' := by
  have hopen : isOpen last.branch = true ∧ isSpent last.branch = true := by
    cases hbranch : last.branch <;> rw [hbranch] at hfires <;>
      first | exact ⟨rfl, rfl⟩ | cases hfires
  refine drives_look_bind ?_
  split
  · exact yields_pure h.order
  dsimp only
  split_ifs
  · exact drives_append_then hJ h (.gaveUp hopen.1) (only_pure _)
  have hcalls : ∀ call ∈ (firedCalls last.branch).zipIdx,
      (firedCalls last.branch)[call.2]? = some call.1 := by
    rintro ⟨tool, i⟩ hcall
    exact mem_zipIdx_iff_getElem?.1 hcall
  refine (drives_progressCalls hJ h hcalls).bind fun progress w' hw' => ?_
  cases progress with
  | stop status => exact yields_pure hw'
  | outstanding => exact yields_pure hw'.order
  | landed =>
    obtain ⟨rfl, hlanded⟩ := hw'
    refine (drives_of_quiet hJ (quiet_maybeGateOnRerank (by decide))
      h.order).bind fun gate w' hw' => ?_
    cases gate with
    | some status => exact yields_pure hw'.1
    | none =>
      refine drives_advanceReactChain hJ (h.of_unmoved hw'.1 hw'.2) hopen.2 ?_
      intro i tool htool
      rw [hw'.2.stateOfId]
      exact hlanded (tool, i) (mem_zipIdx_iff_getElem?.2 htool)

/-- A committed turn is frozen, and what it asks for is started. -/
theorem drives_settleCommittedTurn (hpending : last.branch = .pending)
    (hcommitted : w.projection.stateOfId last.turnMoteId = .committed) :
    P.Drives written (P.settleCommittedTurn (anchor.instanceId, anchor.stepSalt) anchor last
      (front ++ [last])) w fun _ w' => InOrder rel w' := by
  refine drives_look_bind ?_
  split
  · rename_i store resultRef hstore hresult
    split
    · rename_i raw warrant hraw hwarrant
      have hread : (w.projection.resultRefOf last.turnMoteId).bind store.get = some raw := by
        rw [hresult]
        exact hraw
      have hfroze : Continues P w (front ++ [last]) anchor last _ :=
        .froze hpending hcommitted hstore hread hwarrant
      have hnew : ∀ r ∈ front ++ [last], ¬ (r.turn = last.turn ∧ r.branch =
          P.branchOfTurn w.projection store w.outside.lookup (front ++ [last]) last.turn warrant
            raw) := by
        rintro r hr ⟨hturn, hbranch⟩
        rcases mem_append.1 hr with hr | hr
        · exact h.grown.turn_ne_of_pending hpending r hr hturn
        rw [mem_singleton.1 hr, hpending] at hbranch
        exact branchOfTurn_ne_pending hbranch.symm
      refine (drives_appendReactBranch hJ h hfroze).bind fun _ w' hw' => drives_look_bind ?_
      obtain ⟨seq, hstanding⟩ := hw'.2 hnew
      rw [hstanding.rounds]
      generalize hbranch : P.branchOfTurn w.projection store w.outside.lookup (front ++ [last])
        last.turn warrant raw = branch at hstanding
      cases branch with
      | tool toolId toolVersion => exact drives_progressToolBatch hJ hstanding rfl
      | toolBatch calls => exact drives_progressToolBatch hJ hstanding rfl
      | rejected reason => exact drives_advanceReactChain hJ hstanding rfl nofun
      | _ => exact yields_pure hw'.1
    · exact yields_pure h.order
  · exact yields_pure h.order

omit h in
/-- A chain is driven on from wherever it stands. -/
theorem drives_driveReactChain (chain : ChainKey) (hw : InOrder rel w) :
    P.Drives written (P.driveReactChain chain) w fun _ w' => InOrder rel w' := by
  refine drives_look_bind ?_
  split
  · rename_i anchor latest hanchor hlatest
    obtain ⟨front, last, hrounds⟩ : ∃ front last,
        w.projection.reactRoundsOf chain.1 chain.2 = front ++ [last] := by
      have hsome : w.projection.reactRoundsOf chain.1 chain.2 ≠ [] := by
        intro hnil
        unfold reactAnchorOf at hanchor
        rw [hnil] at hanchor
        cases hanchor
      exact ⟨_, _, (dropLast_append_getLast hsome).symm⟩
    have hgrown := hw.grown chain hrounds
    have hlast : latest = last := by
      unfold State.latestReactRound at hlatest
      rw [hrounds, hgrown.latest_eq] at hlatest
      exact (Option.some.inj hlatest).symm
    subst hlast
    have hstanding : Standing rel w front anchor latest ∧
        (anchor.instanceId, anchor.stepSalt) = chain := by
      obtain ⟨first, hhead, hturn⟩ := hgrown.head?_turn
      obtain ⟨rest, hcons⟩ := List.head?_eq_some_iff.1 hhead
      have hfirst : anchor = first := by
        unfold reactAnchorOf at hanchor
        rw [hrounds, hcons, List.find?_cons_of_pos (by simpa using hturn)] at hanchor
        exact (Option.some.inj hanchor).symm
      subst hfirst
      have hkey : (anchor.instanceId, anchor.stepSalt) = chain := by
        obtain ⟨log, hmirrored, -⟩ := hw
        have hmem : anchor ∈ chainRounds log chain := by
          rw [← hmirrored.chainRounds_eq, hrounds, hcons]
          exact mem_cons_self
        have hin : anchor.instanceId = chain.1 ∧ anchor.stepSalt = chain.2 := by
          simpa [inChain] using (mem_filter.1 hmem).2
        exact Prod.ext hin.1 hin.2
      refine ⟨⟨hw, ?_, hhead⟩, hkey⟩
      rw [← hkey] at hrounds
      exact hrounds
    obtain ⟨hstanding, rfl⟩ := hstanding
    rw [hrounds]
    cases hbranch : latest.branch with
    | answer | deadLettered => exact yields_pure hw
    | rejected reason =>
      refine drives_advanceReactChain hJ hstanding (by rw [hbranch]; rfl) ?_
      rw [hbranch]
      intro i tool htool
      rw [show firedCalls (.rejected reason) = [] from rfl, List.getElem?_nil] at htool
      cases htool
    | tool _ _ | toolBatch _ =>
      have hdrives : P.Drives written _ w _ :=
        drives_progressToolBatch hJ hstanding (by rw [hbranch]; rfl)
      rwa [hbranch] at hdrives
    | pending =>
      dsimp only
      split_ifs with hopen hcommitted hretry
      · exact yields_pure hw
      · exact drives_settleCommittedTurn hJ hstanding hbranch hcommitted
      · exact yields_pure hw
      refine drives_append_then hJ hstanding (.gaveUp ?_) (only_pure _)
      rw [hbranch]
      rfl
  · exact yields_pure hw

omit h in
/-- What the store answers to a write is the hash of what was written. -/
theorem drives_put (bytes : List UInt8) (hw : InOrder rel w) :
    P.Drives written (put bytes) w fun ref w' =>
      (∀ r, ref = some r → r = P.contentRefOf bytes) ∧ bytes ∈ written ∧ InOrder rel w' ∧
        Unmoved w w' := by
  refine yields_call fun hfault => ⟨trivial, ?_, ?_, ?_, ?_⟩
  · intro r hr
    change (w.put P.ids.blake3 bytes).1 = some r at hr
    unfold Core.put at hr
    split at hr
    · cases hr
    split at hr
    · exact (Option.some.inj hr).symm
    · cases hr
  · exact hfault.2
  · exact hw.tend hJ hfault.1 (placesFacts_of_omits P written trivial)
  · exact unmoved_tend hJ hw hfault.1 trivial

omit h in
/-- A chain is anchored once, with a budget. -/
theorem drives_writeReactAnchor (hw : InOrder rel w)
    {stepSalt : Option (ByteVec 32)} {isAgenticLaunch : Bool} {turn0 : Mote}
    {maxTurns maxToolCalls : UInt32} {requireApproval : Bool}
    (hstarts : StartsChain P instanceId stepSalt warrant turn0)
    (hturns : 0 < maxTurns.toNat ∧ maxTurns ≤ REACT_MAX_TURNS)
    (hcalls : 0 < maxToolCalls.toNat ∧ maxToolCalls ≤ REACT_MAX_TOOL_CALLS) :
    P.Drives written (P.writeReactAnchor instanceId stepSalt isAgenticLaunch turn0 warrant maxTurns
      maxToolCalls requireApproval) w fun _ w' => InOrder rel w' := by
  refine drives_look_bind ?_
  split_ifs with hany
  · exact yields_pure hw
  have hnone : w.projection.reactRoundsOf instanceId stepSalt = [] := by
    by_contra hsome
    have hsnoc := (dropLast_append_getLast hsome).symm
    obtain ⟨anchor, hhead, hturn⟩ := (hw.grown (instanceId, stepSalt) hsnoc).head?_turn
    rw [← hsnoc] at hhead
    exact hany (any_eq_true.2 ⟨anchor, mem_of_mem_head? hhead, by simpa using hturn⟩)
  split
  · exact yields_pure hw
  rename_i prompt hprompt
  refine (drives_put hJ prompt hw).bind fun baseRef w₁ hw₁ => ?_
  refine (drives_put hJ (P.encodeWarrant warrant) hw₁.2.2.1).bind fun warrantRef w₂ hw₂ => ?_
  split
  · rename_i baseRef warrantRef
    have hbase := hw₁.1 baseRef rfl
    have hwarrant := hw₂.1 warrantRef rfl
    refine (drives_of_quiet hJ (quiet_reading _) hw₂.2.2.1).bind fun _ w₃ hw₃ => ?_
    split
    · exact yields_pure hw₃.1
    split
    · exact yields_pure hw₃.1
    refine Program.Yields.bind (yields_call fun hfault => ?_) fun _ _ hw' => yields_pure hw'
    have hrounds : w₃.projection.reactRoundsOf instanceId stepSalt = [] := by
      have hsame := (hw₁.2.2.2.trans hw₂.2.2.2).trans hw₃.2
      exact (hsame.rounds (instanceId, stepSalt)).trans hnone
    refine (fun hplaces => ⟨hplaces, InOrder.tend hJ hw₃.1 hfault.1 hplaces⟩ :
      PlacesFacts P written w₃ _ → _) ?_
    exact .inl ⟨hrounds, rfl, rfl, ⟨hturns, hcalls⟩, turn0, warrant, prompt, hstarts,
      hprompt, rfl, rfl, hbase, hwarrant, hw₁.2.1, hw₂.2.1⟩
  · exact yields_pure hw₂.2.2.1

end Functions

section Threads

variable (P)

/-- As `Drives`, of a program that may also decide what becomes of a Mote: the chains stay in
order. -/
abbrev Platform.KeepsOrder (written : Set (List UInt8))
    (rel : J.State → List JournalEntry → Prop) (p : Coord J α)
    (w : Core J) : Prop :=
  p.Yields (P.handler J) (fun w e => Lasting written w e ∧ P.Guarded w e) (PlacesFacts P written) w
    fun _ w' => InOrder rel w'

variable {P}

/-- What drives chains does so as part of a larger program. -/
theorem Platform.Drives.thread (hp : P.Drives written p w fun _ w' => InOrder rel w') :
    P.KeepsOrder written rel (routine p : Coord J α) w := by
  induction p generalizing w with
  | done a => exact ⟨trivial, fun _ => hp.post trivial⟩
  | perform c next ih =>
    have hstep : Lasting written w (.chore c) →
        P.KeepsOrder written rel (routine (next (tend P.ids.blake3 J c w).1) : Coord J α)
          (tend P.ids.blake3 J c w).2 := fun hfault =>
      ih _ ⟨(hp.asLong hfault).2, fun hQ => hp.post ⟨hfault, hQ⟩⟩
    exact ⟨fun hQ => ⟨(hp.asLong hQ.1).1, (hstep hQ.1).asLong⟩, fun hQ => (hstep hQ.1.1).post hQ.2⟩

variable (hJ : J.ReadsBack P.ids.blake3 rel)
include hJ

theorem keepsOrder_of_quiet {p : Coord J α} (hp : QuietThread .reactRound p)
    (hw : InOrder rel w) : P.KeepsOrder written rel p w where
  asLong := (hp.along (fun _ _ homits => placesFacts_of_omits P written homits) w).asLong
  post := by
    intro hQ
    have hplaces : p.Along (P.handler J) (PlacesFacts P written) w :=
      hp.along (fun _ _ homits => placesFacts_of_omits P written homits) w
    exact (hQ.and hplaces).preserves
      (fun _ _ hw he => InOrder.perform hJ hw he.1.2 he.1.1.1 he.2) hw

theorem walks_inOrder :
    P.Walks .reactRound
      (fun _ p => ∀ w, InOrder rel w → P.Drives written p w fun _ w' => InOrder rel w')
      (fun _ p => ∀ w, InOrder rel w → P.KeepsOrder written rel p w) where
  rounds := .inr (.inr rfl)
  quiet hp _ hw := (drives_of_quiet hJ hp hw).mono fun _ _ h => h.1
  bind hp hf w hw := (hp w hw).bind fun a w hw => hf a w hw
  thread hp w hw := (hp w hw).thread
  quietThread hp _ hw := keepsOrder_of_quiet hJ hp hw
  bindThread hp hf w hw := (hp w hw).bind fun a w hw => hf a w hw
  reactChain _ chain _ hw := drives_driveReactChain hJ chain hw
  reactAnchor _ _ _ _ _ _ _ _ _ hstarts hturns hcalls _ hw :=
    drives_writeReactAnchor hJ hw hstarts hturns hcalls

/-- Whatever the coordinator does, chain facts are noted where they belong. -/
theorem keepsOrder_act (hw : InOrder rel w) (action : Action) :
    P.KeepsOrder written rel (P.act action) w :=
  (walks_inOrder hJ).act action w hw

end Threads

/-- An invariant of runs that keeps the facts of the chains in order may rely on where the next
ones are noted. -/
theorem holds_of_reaches_of_order (hJ : J.ReadsBack P.ids.blake3 rel)
    {R : Core J → Effect → Prop} {I : RunInvariant P J rel fun w e =>
      (Lasting written w e ∧ R w e) ∧ PlacesFacts P written w e}
    (horder : ∀ w log, I.up w log → Orderly log) (hnew : I.down []) {moment : Moment J}
    (hreaches : Reaches P J (fun w e => Lasting written w e ∧ R w e) moment) : I.Holds moment := by
  apply RunInvariant.holds_of_reaches_of_asLong hJ (fun _ _ he => he.1.1.1) _ hnew hreaches
  rintro action w ⟨log, hmirrored, hup⟩
  exact (keepsOrder_act hJ ⟨log, hmirrored, horder w log hup⟩ action).asLong.imp
    fun _ _ he => ⟨he.1.1, he.2⟩

end Kortecx.Coordinator
