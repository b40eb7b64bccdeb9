import Kortecx.Coordinator.Reordering
import Kortecx.Coordinator.Replanning

/-!
What a rerank delivers. Whatever the model answers, the order that is frozen is a permutation of
the candidates, so the passages of an observation and the items of a bundle come out each as often
as they went in. The reader of a delivery computes the same ref under which the settle pass stored
it.
-/

namespace Kortecx.Coordinator

open Lib Mote Journal Projection Warrant Platform List Option Lib.Program

def FrozenInOrder (r : ReRankRound) : Prop :=
  ∀ permutation, r.outcome = .reranked permutation →
    (permutation.map (·.toNat)).Perm (List.range r.candidateCount.toNat)

def FreezesInOrder : Effect → Prop
  | .chore (.note (.reRankRound r) _) => FrozenInOrder r
  | _ => True

theorem freezesInOrder_of_omits {e : Effect} (homits : e.Omits .reRankRound) :
    FreezesInOrder e := by
  unfold FreezesInOrder
  split
  · intro permutation houtcome
    exact absurd (if_neg (by simp [houtcome])) homits
  · trivial

variable {P : Platform} {J : Backend} {readArray : String → Option (List Int64)}

section Programs

variable {α : Type}

/-- A permutation that is frozen lists each candidate once. -/
theorem perm_of_rerankOutcome (hparse : P.parsePermutation = parsePermutation readArray)
    (houtcome : P.rerankOutcome s store anchor = some (.reranked permutation)) :
    (permutation.map (·.toNat)).Perm (List.range anchor.candidateCount.toNat) := by
  unfold rerankOutcome at houtcome
  dsimp only at houtcome
  split_ifs at houtcome
  · obtain ⟨bytes, _, hmatch⟩ := Option.map_eq_some_iff.1 houtcome
    rw [hparse] at hmatch
    split at hmatch
    · next perm hperm =>
        cases hmatch
        have hrange := perm_of_parsePermutation hperm
        have hsame : (perm.map u32OfNat).map (·.toNat) = perm := by
          rw [List.map_map]
          refine (map_congr_left fun i hi => ?_).trans (map_id perm)
          have hlt := mem_range.1 (hrange.mem_iff.1 hi)
          exact toNat_u32OfNat (lt_trans hlt anchor.candidateCount.toNat_lt)
        rw [hsame]
        exact hrange
    · cases hmatch
  · cases houtcome

/-- The outcome of a rerank is in order, whatever the model answered. -/
theorem frozenInOrder_of_rerankOutcome (hparse : P.parsePermutation = parsePermutation readArray)
    (houtcome : P.rerankOutcome s store anchor = some outcome) (seq : UInt64) :
    FrozenInOrder { anchor with outcome, seq } := by
  rintro permutation rfl
  exact perm_of_rerankOutcome hparse houtcome

abbrev Freezes (p : Coord J α) : Prop :=
  p.Only FreezesInOrder

/-- As `Freezes`, of a program that decides nothing. -/
abbrev FreezesRoutine (p : Routine J α) : Prop :=
  p.Only fun c => FreezesInOrder (.chore c)

theorem freezes_of_quiet (hp : QuietThread .reRankRound p) : Freezes p :=
  hp.imp fun _ homits => freezesInOrder_of_omits homits

theorem freezesRoutine_of_quiet (hp : Quiet .reRankRound p) : FreezesRoutine p :=
  hp.imp fun c homits => freezesInOrder_of_omits (e := .chore c) homits

variable (hparse : P.parsePermutation = parsePermutation readArray)

include hparse

theorem freezesRoutine_settleRerankRounds :
    FreezesRoutine (P.settleRerankRounds : Routine J Unit) := by
  refine (freezesRoutine_of_quiet quiet_look).bind fun w => ?_
  split_ifs
  · exact only_pure _
  refine only_forEach fun anchor => ?_
  refine (freezesRoutine_of_quiet quiet_look).bind fun w => ?_
  split
  · exact only_pure _
  next outcome houtcome =>
    obtain ⟨store, _, houtcome⟩ := bind_eq_some_iff.1 houtcome
    refine (freezesRoutine_of_quiet (quiet_reading _)).bind fun _ => ?_
    refine (freezesRoutine_of_quiet quiet_look).bind fun w' => ?_
    split_ifs
    · exact only_pure _
    refine Program.Only.bind (Program.only_call ?_) fun _ => only_pure _
    exact frozenInOrder_of_rerankOutcome hparse houtcome 0

theorem walks_freezes :
    P.Walks .reRankRound (fun _ p => FreezesRoutine (J := J) p) fun _ p => Freezes p where
  rounds := .inr (.inl rfl)
  quiet := freezesRoutine_of_quiet
  bind hp hf := hp.bind hf
  thread hp := hp.embed fun _ h => h
  quietThread := freezes_of_quiet
  bindThread hp hf := hp.bind hf
  rerankRounds _ := freezesRoutine_settleRerankRounds hparse

/-- Whatever the coordinator does, it freezes orders of the candidates only. -/
theorem freezes_act (action : Action) : Freezes (P.act action : Coord J Reply) :=
  (walks_freezes hparse).act action

end Programs

section Runs

variable {rel : J.State → List JournalEntry → Prop} {w w' : Core J} {log new : List JournalEntry}
  {e : Effect}

def rerankRoundOf : JournalEntry → Option ReRankRoundRecord
  | .reRankRound e => some e
  | _ => none

theorem collects_rerankRounds : Collects State.rerankRounds rerankRoundOf where
  runRecords _ := rfl
  recordsAfter s e := by
    cases e with
    | reRankRound e => rfl
    | reactRound e | approval e => simp [State.recordsAfter, subject, State.advance, rerankRoundOf]
    | _ => exact (append_nil _).symm

def AllInOrder (log : List JournalEntry) : Prop :=
  ∀ r ∈ log.filterMap rerankRoundOf, FrozenInOrder r

theorem AllInOrder.did (hall : AllInOrder log) (hguarded : P.Guarded w e)
    (hfreezes : FreezesInOrder e) (hdid : Did P.ids.blake3 w log e new w') :
    AllInOrder (log ++ new) := by
  intro r hr
  rw [filterMap_append] at hr
  rcases mem_append.1 hr with hr | hr
  · exact hall r hr
  obtain ⟨x, hx, hpick⟩ := mem_filterMap.1 hr
  obtain ⟨y, hy, n, rfl⟩ := hdid.exists_entry hx
  cases y with
  | reRankRound r' =>
    cases hpick
    rcases hguarded.mem_entries hy with ⟨fact, strict, rfl, hfact⟩ | ⟨strict, ops, rfl⟩ |
      ⟨_, _, _, hentry, _⟩ | ⟨_, _, _, _, _, _, _, hentry⟩
    · cases fact <;> cases hfact
      exact hfreezes
    · cases hguarded
    · cases hentry
    · cases hentry
  | _ => cases hpick

def inOrderRuns (P : Platform) (J : Backend) (rel : J.State → List JournalEntry → Prop) :
    RunInvariant P J rel fun w e => HasRoom w e ∧ FreezesInOrder e where
  up _ log := AllInOrder log
  down log := AllInOrder log
  boot _ _ _ _ hdown := hdown
  facing _ hup := hup
  crash _ hup := hup
  step _ hup hguarded he hdid _ := hup.did hguarded he.2 hdid

/-- In every state that a run reaches, every frozen order lists each candidate once. -/
theorem frozenInOrder_of_reaches (hJ : IsJournal P J)
    (hparse : P.parsePermutation = parsePermutation readArray) {todo : List Action}
    (hreaches : Reaches P J HasRoom (.up w todo)) :
    ∀ r ∈ w.projection.rerankRounds, FrozenInOrder r := by
  obtain ⟨rel, hreads⟩ := hJ.readsBack
  have hdoes : ∀ action w, (inOrderRuns P J rel).Live w → (P.act action).AsLong (P.handler J)
      (fun w e => HasRoom w e ∧ P.Guarded w e) (fun _ e => FreezesInOrder e) w :=
    fun action w _ => ((freezes_act hparse action).along (fun _ _ h => h) w).asLong
  have hnew : AllInOrder [] := by simp [AllInOrder]
  obtain ⟨log, hmirrored, hall⟩ := RunInvariant.holds_of_reaches_of_asLong hreads
    (fun _ _ hroom => hroom) hdoes hnew hreaches
  rw [hmirrored.collected collects_rerankRounds rfl]
  exact hall

end Runs

variable {w : Core J}

/-- What the reader of an observation finds: the latest order of it, applied. -/
theorem rerankDeliveredRef_eq_some
    (hread : P.rerankDeliveredRef s store instanceId obsRef = some ref) :
    ∃ st r permutation base delivered, store = some st ∧ r ∈ s.rerankRounds ∧
      r.outcome = .reranked permutation ∧ st.get obsRef = some base ∧
      P.reorderRetrievalObservation base permutation = some delivered ∧
      ref = P.contentRefOf delivered := by
  obtain ⟨st, hstore, hread⟩ := bind_eq_some_iff.1 hread
  split_ifs at hread
  · cases hread
  obtain ⟨r, hlatest, hread⟩ := bind_eq_some_iff.1 hread
  split at hread
  · next permutation houtcome =>
      obtain ⟨base, hbase, hread⟩ := bind_eq_some_iff.1 hread
      obtain ⟨delivered, hdelivered, hread⟩ := bind_eq_some_iff.1 hread
      cases hread
      exact ⟨st, r, permutation, base, delivered, hstore,
        mem_of_mem_filter (mem_of_lastMaxBy hlatest), houtcome, hbase, hdelivered, rfl⟩
  · cases hread

/-- The reader of an observation applies the latest order of it. -/
theorem rerankDeliveredRef_of_latest {s : State} {store : Store}
    (hlatest : s.latestRerankRoundByBase instanceId obsRef = some r)
    (houtcome : r.outcome = .reranked permutation) (hbase : store.get obsRef = some base)
    (hdelivered : P.reorderRetrievalObservation base permutation = some delivered) :
    P.rerankDeliveredRef s (some store) instanceId obsRef = some (P.contentRefOf delivered) := by
  obtain ⟨hmem, hof⟩ := mem_filter.1 (mem_of_lastMaxBy hlatest)
  have hsome : (s.rerankRoundsOf instanceId).isEmpty = false := by
    rw [isEmpty_eq_false_iff_exists_mem]
    refine ⟨r, mem_filter.2 ⟨hmem, ?_⟩⟩
    exact decide_eq_true (of_decide_eq_true hof).1
  unfold rerankDeliveredRef
  simp only [bind_eq_bind, bind_some, hsome, hlatest, houtcome, hbase, hdelivered]
  rfl

/-- What the reader of a bundle finds: the order of the answer's rerank, applied. -/
theorem chatRagDeliveredContext_eq_some
    (hread : ((P.chatRagDeliveredContext m warrant : Reading J _).run
      (ask P.ids.blake3 J) w).1 = some ref) :
    ∃ rerank permutation bundle delivered,
      ((P.chatRagRerankId m warrant : Reading J _).run (ask P.ids.blake3 J) w).1 = some rerank ∧
      rerankOutcomeOf w.projection rerank.id = some (.reranked permutation) ∧
      m.def.configSubset[CONTEXT_ITEMS_KEY]? = some bundle ∧
      P.reorderContextItemsBundle bundle permutation = some delivered ∧
      ref = P.contentRefOf delivered := by
  unfold chatRagDeliveredContext at hread
  rw [run_ask_look_bind] at hread
  split_ifs at hread
  · cases hread
  rw [run_bind] at hread
  generalize hid : (P.chatRagRerankId m warrant : Reading J _).run (ask P.ids.blake3 J) w =
    found at hread
  obtain ⟨rerank, w₁⟩ := found
  cases rerank with
  | none => cases hread
  | some rerank =>
    dsimp only at hread
    split at hread
    · next permutation bundle houtcome hbundle =>
        obtain ⟨delivered, hdelivered, rfl⟩ := map_eq_some_iff.1 hread
        exact ⟨rerank, permutation, bundle, delivered, rfl, houtcome, hbundle, hdelivered, rfl⟩
    · cases hread

theorem mem_of_rerankOutcomeOf {id : MoteId}
    (houtcome : rerankOutcomeOf s id = some outcome) :
    ∃ r ∈ s.rerankRounds, r.outcome = outcome := by
  obtain ⟨r, hlatest, houtcome⟩ := map_eq_some_iff.1 houtcome
  exact ⟨r, mem_of_mem_filter (mem_of_lastMaxBy hlatest), houtcome⟩

section Staging

variable {bytes : List UInt8}

def Staged (P : Platform) (bytes : List UInt8) (w : Core J) : Prop :=
  ∃ store, w.outside.store = some store ∧ store.get (P.contentRefOf bytes) = some bytes

variable {store : Store}

/-- A store that takes what is put into it holds it. -/
theorem staged_put (hstore : w.outside.store = some store)
    (htakes : store.takes = true) : Staged P bytes (w.put P.ids.blake3 bytes).2 := by
  unfold Staged Core.put
  rw [hstore]
  dsimp only
  rw [if_pos htakes]
  exact ⟨_, rfl, Function.update_self ..⟩

theorem outside_foldNew (w : Core J) (e : JournalEntry) : (w.foldNew e).2.outside = w.outside := by
  unfold Core.foldNew
  split_ifs
  · split <;> rfl
  · rfl

theorem outside_record (w : Core J) (e : JournalEntry) (strict : Bool) :
    (w.record e strict []).2.outside = w.outside := by
  unfold Core.record
  split
  · split
    · rfl
    next durable _ =>
      have hfold := outside_foldNew { w with journal := (J.append w.journal e).state } durable
      split
      · next hfolded =>
          rw [hfolded] at hfold
          exact hfold
      next hfolded =>
        rw [hfolded] at hfold
        split <;> exact hfold
  · rfl

/-- A reading program runs in the language of chores as in its own. -/
theorem run_tend_reading {α : Type} (p : Reading J α) (w : Core J) :
    (reading p : Routine J α).run (tend P.ids.blake3 J) w = p.run (ask P.ids.blake3 J) w := by
  induction p generalizing w with
  | done a => rfl
  | perform q next ih => exact ih _ _

/-- Reading keeps a store that takes what is put into it. -/
theorem takes_run_ask {α : Type} (p : Reading J α) (hstore : w.outside.store = some store)
    (htakes : store.takes = true) :
    ∃ store', (p.run (ask P.ids.blake3 J) w).2.outside.store = some store' ∧
      store'.takes = true := by
  induction p generalizing w store with
  | done a => exact ⟨store, hstore, htakes⟩
  | perform q next ih =>
    cases q with
    | read => exact ih _ hstore htakes
    | put bytes =>
      have hput : ∃ store', (w.put P.ids.blake3 bytes).2.outside.store = some store' ∧
          store'.takes = true := by
        unfold Core.put
        rw [hstore]
        dsimp only
        rw [if_pos htakes]
        exact ⟨_, rfl, htakes⟩
      obtain ⟨store', hstore', htakes'⟩ := hput
      exact ih _ hstore' htakes'

/-- What the pass over the chains stages. -/
theorem staged_settleRerankRound
    (hstore : w.outside.store = some store) (htakes : store.takes = true)
    (houtcome : P.rerankOutcome w.projection store anchor = some (.reranked permutation))
    (hbase : store.get anchor.baseResultsRef = some base)
    (hreordered : P.reorderRetrievalObservation base permutation = some bytes) :
    Staged P bytes ((P.settleRerankRound anchor : Routine J Unit).run
      (tend P.ids.blake3 J) w).2 := by
  unfold settleRerankRound
  rw [run_tend_look_bind, hstore, bind_some, houtcome]
  rw [run_bind, run_tend_reading]
  have hstaged : Staged P bytes ((P.stageReranked anchor (.reranked permutation) :
      Reading J Unit).run (ask P.ids.blake3 J) w).2 := by
    unfold stageReranked
    rw [run_ask_look_bind, hstore]
    dsimp only
    rw [hbase, bind_some, hreordered]
    exact staged_put hstore htakes
  generalize ((P.stageReranked anchor (.reranked permutation) : Reading J Unit).run
    (ask P.ids.blake3 J) w).2 = w₁ at hstaged ⊢
  unfold appendRerankOutcome
  rw [run_tend_look_bind]
  split_ifs
  · exact hstaged
  change Staged P bytes (w₁.record _ false []).2
  unfold Staged
  rw [outside_record]
  exact hstaged

/-- What the pass over the answers stages. -/
theorem staged_settleChatRagRerank (hstore : w.outside.store = some store)
    (htakes : store.takes = true) (hrerank : ((P.chatRagRerankId answer warrant : Reading J _).run
      (ask P.ids.blake3 J) w).1 = some rerank)
    (houtcome : rerankOutcomeOf w.projection rerank.id = some (.reranked permutation))
    (hbundle : answer.def.configSubset[CONTEXT_ITEMS_KEY]? = some bundle)
    (hreordered : P.reorderContextItemsBundle bundle permutation = some bytes) :
    Staged P bytes ((P.settleChatRagRerank answer warrant : Routine J Unit).run
      (tend P.ids.blake3 J) w).2 := by
  have hprojection : ((P.chatRagRerankId answer warrant : Reading J _).run
      (ask P.ids.blake3 J) w).2.projection = w.projection := (run_ask_frame _ w).1
  obtain ⟨store', hstore', htakes'⟩ := takes_run_ask (P := P)
    (P.chatRagRerankId answer warrant : Reading J _) hstore htakes
  unfold settleChatRagRerank
  rw [run_bind, run_tend_reading]
  generalize (P.chatRagRerankId answer warrant : Reading J _).run (ask P.ids.blake3 J) w =
    found at hrerank hprojection hstore'
  obtain ⟨_, w₁⟩ := found
  subst hrerank
  rw [run_tend_look_bind, hprojection, houtcome]
  dsimp only
  rw [hbundle, bind_some, hreordered]
  exact staged_put hstore' htakes'

end Staging

section Delivery

variable {readJson : List UInt8 → Option Json} {writeJson : Json → Option (List UInt8)}

/-- The observation a turn is handed is the base itself, or has the passages of the base, each
as often, and the base's other fields. -/
def DeliversObservation (P : Platform) (readJson : List UInt8 → Option Json)
    (writeJson : Json → Option (List UInt8)) (s : State) (store : Option Store)
    (instanceId : InstanceId) (obsRef : ContentRef) : Prop :=
  P.rerankDeliveredRef s store instanceId obsRef = none ∨
    ∃ st base delivered v v' passages reordered, store = some st ∧ st.get obsRef = some base ∧
      P.rerankDeliveredRef s store instanceId obsRef = some (P.contentRefOf delivered) ∧
      ReordersPassages readJson writeJson base delivered v v' passages reordered

theorem deliversObservation_of_inOrder
    (hreorder : P.reorderRetrievalObservation = reorderRetrievalObservation readJson writeJson)
    {s : State} (hall : ∀ r ∈ s.rerankRounds, FrozenInOrder r) (store : Option Store)
    (instanceId : InstanceId) (obsRef : ContentRef) :
    DeliversObservation P readJson writeJson s store instanceId obsRef := by
  cases hread : P.rerankDeliveredRef s store instanceId obsRef with
  | none => exact .inl hread
  | some ref =>
    obtain ⟨st, r, permutation, base, delivered, hstore, hr, houtcome, hbase, hdelivered, rfl⟩ :=
      rerankDeliveredRef_eq_some hread
    rw [hreorder] at hdelivered
    obtain ⟨v, v', passages, reordered, hreorders⟩ :=
      reordersPassages_of_eq_some (hall r hr permutation houtcome) hdelivered
    exact .inr ⟨st, base, delivered, v, v', passages, reordered, hstore, hbase, hread, hreorders⟩

/-- A bundle of up to 1 GiB is delivered with the items of the base, each as often. -/
theorem perm_of_reorderContextItemsBundle
    (hdecode : P.decodeContextItems = decodeContextItems P.fromUtf8Lossy)
    (hencode : P.encodeContextItemsOrdered = encodeContextItemsOrdered)
    (hlossy : P.fromUtf8Lossy = fromUtf8Lossy) {permutation : List UInt32}
    (horder : (permutation.map (·.toNat)).Perm (List.range n))
    (hsize : bundle.length ≤ 2 ^ 30)
    (hdelivered : P.reorderContextItemsBundle bundle permutation = some delivered) :
    (P.decodeContextItems delivered).Perm (P.decodeContextItems bundle) := by
  obtain ⟨items, hitems, rfl⟩ := map_eq_some_iff.1 hdelivered
  have hperm := perm_of_permuted horder hitems
  have hfit : NamesFit (P.decodeContextItems bundle) := by
    rw [hdecode, hlossy]
    exact namesFit_decodeItemsWithin hsize
  have hback : P.decodeContextItems (P.encodeContextItemsOrdered items) = items := by
    rw [hdecode, hencode, hlossy]
    exact decodeContextItems_encode fromUtf8Lossy_utf8Bytes (hfit.perm hperm)
  rwa [hback]

end Delivery

/-- In every run on either journal, in every state reached: an observation is delivered as it is
or reordered; a bundle of up to 1 GiB is delivered with the items of the base, each as often;
and what the settle passes stage lies under the ref that the readers compute. -/
theorem rerank_delivers {P : Platform} {J : Backend} (hJ : IsJournal P J)
    {readArray : String → Option (List Int64)}
    (hparse : P.parsePermutation = parsePermutation readArray)
    {readJson : List UInt8 → Option Json} {writeJson : Json → Option (List UInt8)}
    (hreorder : P.reorderRetrievalObservation = reorderRetrievalObservation readJson writeJson)
    (hdecode : P.decodeContextItems = decodeContextItems P.fromUtf8Lossy)
    (hencode : P.encodeContextItemsOrdered = encodeContextItemsOrdered)
    (hlossy : P.fromUtf8Lossy = fromUtf8Lossy) {w : Core J} {todo : List Action}
    (hreaches : Reaches P J HasRoom (.up w todo)) (outside : Outside) :
    (∀ instanceId obsRef, DeliversObservation P readJson writeJson w.projection outside.store
      instanceId obsRef) ∧
    (∀ (anchor r : ReRankRoundRecord) (permutation : List UInt32) (store later : Store)
      (base reordered : List UInt8) (s : State), outside.store = some store → store.takes = true →
      P.rerankOutcome w.projection store anchor = some (.reranked permutation) →
      store.get anchor.baseResultsRef = some base →
      P.reorderRetrievalObservation base permutation = some reordered →
      s.latestRerankRoundByBase anchor.instanceId anchor.baseResultsRef = some r →
      r.outcome = .reranked permutation → later.get anchor.baseResultsRef = some base →
      Staged P reordered ((P.settleRerankRound anchor : Routine J Unit).run
          (tend P.ids.blake3 J) (w.facing outside)).2 ∧
        P.rerankDeliveredRef s (some later) anchor.instanceId anchor.baseResultsRef =
          some (P.contentRefOf reordered)) ∧
    ∀ (m : Mote) (warrant : WarrantSpec) (ref : ContentRef),
      ((P.chatRagDeliveredContext m warrant : Reading J _).run (ask P.ids.blake3 J)
        (w.facing outside)).1 = some ref →
      ∃ bundle delivered, m.def.configSubset[CONTEXT_ITEMS_KEY]? = some bundle ∧
        ref = P.contentRefOf delivered ∧
        (bundle.length ≤ 2 ^ 30 →
          (P.decodeContextItems delivered).Perm (P.decodeContextItems bundle)) ∧
        ∀ store, outside.store = some store → store.takes = true →
          Staged P delivered ((P.settleChatRagRerank m warrant : Routine J Unit).run
            (tend P.ids.blake3 J) (w.facing outside)).2 := by
  have hall := frozenInOrder_of_reaches hJ hparse hreaches
  refine ⟨deliversObservation_of_inOrder hreorder hall outside.store, ?_, ?_⟩
  · intro anchor r permutation store later base reordered s hstore htakes houtcome hbase hreordered
      hlatest hr hlater
    refine ⟨staged_settleRerankRound hstore htakes houtcome hbase hreordered, ?_⟩
    exact rerankDeliveredRef_of_latest hlatest hr hlater hreordered
  · intro m warrant ref hread
    obtain ⟨rerank, permutation, bundle, delivered, hrerank, houtcome, hbundle, hdelivered, rfl⟩ :=
      chatRagDeliveredContext_eq_some hread
    obtain ⟨r, hr, hr'⟩ := mem_of_rerankOutcomeOf houtcome
    refine ⟨bundle, delivered, hbundle, rfl, fun hsize => ?_, fun store hstore htakes => ?_⟩
    · exact perm_of_reorderContextItemsBundle hdecode hencode hlossy (hall r hr permutation hr')
        hsize hdelivered
    · exact staged_settleChatRagRerank hstore htakes hrerank houtcome hbundle hdelivered

/-- A platform whose answers rest on `n` passages, and whose model keeps their order. -/
def passagePlatform (n : Nat) : Platform :=
  { agentPlatform with
    decodeContextItems := fun _ => List.replicate n ⟨"passage", ⟨.replicate 32 0⟩⟩
    buildRerankTurn := fun _ _ _ _ _ => stepAt (pureDef ∅) 200 []
    parsePermutation := parsePermutation fun _ => some ((List.range n).map Int64.ofNat) }

def passageStore : Store where
  get _ := some []
  contains _ := true
  takes := true

def passageOutside : Outside :=
  { sampleOutside with
    store := some passageStore
    serveLlmRerankEnabled := true }

def passageRerank : Mote := stepAt (pureDef ∅) 200 []

/-- A platform that reads bundles as the coordinator does, and whose model swaps two passages. -/
def swapPlatform : Platform :=
  { passagePlatform 2 with
    fromUtf8Lossy := fromUtf8Lossy
    decodeContextItems := decodeContextItems fromUtf8Lossy
    encodeContextItemsOrdered := encodeContextItemsOrdered
    reorderRetrievalObservation := reorderRetrievalObservation (fun _ => none) fun _ => none
    parsePermutation := parsePermutation fun _ => some [1, 0] }

def twoItems : List UInt8 :=
  encodeContextItemsOrdered [⟨"a", ⟨.replicate 32 0⟩⟩, ⟨"b", ⟨.replicate 32 1⟩⟩]

def twoItemsDef : MoteDef :=
  pureDef (((∅ : Std.ExtTreeMap ConfigKey ConfigVal).insert PROMPT_KEY (utf8Bytes "why")).insert
    CONTEXT_ITEMS_KEY twoItems)

def twoItemsAnswer : Mote := stepAt twoItemsDef 1 []

/-- The answer is submitted, its rerank is made, handed out and committed. -/
def swapBatches : List (List Command) :=
  [[registerSampleRun, submitAt twoItemsDef 1 []], [poll 1], [.commit (commitOf passageRerank.id)]]

abbrev swapJournal : Backend := InMemory.inMemory swapPlatform.ids.blake3

def swapStarted : Core swapJournal :=
  (started passageOutside swapPlatform.ids.blake3 .new).after swapPlatform passageOutside [.recover]

def swapSettled : Core swapJournal :=
  swapStarted.after swapPlatform passageOutside (swapBatches.flatMap (plan []))

def swapDelivered : Option ContentRef :=
  ((swapPlatform.chatRagDeliveredContext twoItemsAnswer {} : Reading swapJournal _).run
    (ask swapPlatform.ids.blake3 swapJournal) (swapSettled.facing passageOutside)).1

/-- The swapped bundle is delivered, has the two items, and lies in the store. -/
theorem rerank_delivers_twoItems :
    ∃ ref delivered, swapDelivered = some ref ∧ ref = swapPlatform.contentRefOf delivered ∧
      (swapPlatform.decodeContextItems delivered).Perm (swapPlatform.decodeContextItems twoItems) ∧
      Staged swapPlatform delivered
        ((swapPlatform.settleChatRagRerank twoItemsAnswer {} : Routine swapJournal Unit).run
          (tend swapPlatform.ids.blake3 swapJournal) (swapSettled.facing passageOutside)).2 := by
  have hreaches : Reaches swapPlatform swapJournal HasRoom (.up swapSettled []) :=
    reaches_batches passageOutside swapBatches (by decide) (by decide +kernel)
  have hsome : swapDelivered.isSome = true := by decide +kernel
  obtain ⟨ref, href⟩ := isSome_iff_exists.1 hsome
  have hparse : swapPlatform.parsePermutation = parsePermutation fun _ => some [1, 0] := rfl
  have hreorder : swapPlatform.reorderRetrievalObservation =
      reorderRetrievalObservation (fun _ => none) fun _ => none := rfl
  have hdone := rerank_delivers (J := swapJournal) (.inl rfl) hparse hreorder rfl rfl
    rfl hreaches passageOutside
  obtain ⟨bundle, delivered, hbundle, hdelivered, hperm, hstaged⟩ :=
    hdone.2.2 twoItemsAnswer {} ref href
  have htwo : twoItemsAnswer.def.configSubset[CONTEXT_ITEMS_KEY]? = some twoItems := by
    decide +kernel
  rw [htwo] at hbundle
  cases hbundle
  exact ⟨ref, delivered, href, hdelivered, hperm (by decide +kernel), hstaged passageStore rfl rfl⟩

end Kortecx.Coordinator
