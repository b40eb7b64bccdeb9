import Kortecx.Coordinator.Live

/-!
Runs of the coordinator: from an empty journal, through any number of processes, each of
which starts from the journal the one before it left. An invariant of runs says something of
a running coordinator and something of a journal alone; what has to be checked is one
effect, the start of a process, and its end.
-/

namespace Kortecx.Coordinator

open Lib Mote Journal Projection Platform List Journal.Backend Relation

/-- What is left of a coordinator that is down. -/
structure Kept {J : Backend} (rel : J.State → List JournalEntry → Prop) (journal : J.State)
    (log : List JournalEntry) : Prop where
  rel : rel journal log
  wellFormed : DedupLog.WellFormed entryScheme log
  keyed : ∀ e ∈ log, KeyedCommit e
  room : log.length + 1 < SEQ_LIMIT
  replays : ∃ s, replay none {} log = .ok s

variable {P : Platform} {J : Backend} {rel : J.State → List JournalEntry → Prop}

section Boot

variable {blake3 : List UInt8 → ByteVec 32} {log : List JournalEntry}

theorem Mirrored.kept (hmirrored : Mirrored rel w log) : Kept rel w.journal log where
  rel := hmirrored.rel
  wellFormed := hmirrored.wellFormed
  keyed := hmirrored.keyed
  room := hmirrored.room
  replays := hmirrored.journaled.imp fun _ hs => hs.1

theorem kept_new (hJ : J.ReadsBack blake3 rel) : Kept rel J.new [] where
  rel := hJ.new
  wellFormed := DedupLog.WellFormed.nil _
  keyed := by simp
  room := by decide
  replays := ⟨{}, rfl⟩

/-- A process starts with the replay of its journal, and with every Mote of it admitted. -/
theorem Kept.mirrored_recover (hJ : J.ReadsBack blake3 rel) {outside : Outside}
    (hkept : Kept rel journal log) (hrecover : recover journal outside = some w) :
    Mirrored rel w log ∧ replay none {} log = .ok w.projection ∧
      w.dispatch = emptyDispatch (.ofList w.projection.iterMotes) := by
  obtain ⟨s, hs⟩ := hkept.replays
  unfold recover at hrecover
  rw [fromJournal_eq_replay hJ hkept.rel hkept.room, hJ.currentSeq hkept.rel, hs] at hrecover
  cases hrecover
  refine ⟨⟨?_, hkept.rel⟩, hs, rfl⟩
  exact ⟨hkept.wellFormed, hkept.keyed, hkept.room, rfl, s, hs, rfl⟩

end Boot

variable {Q : Core J → Effect → Prop}

theorem Step.mono (hstep : Step P J Q a b) (hQR : ∀ w e, Q w e → R w e) : Step P J R a b := by
  cases hstep with
  | boot hrecover => exact .boot hrecover
  | drain commands hsome hbound => exact .drain commands hsome hbound
  | act action outside hlawful => exact .act action outside (hlawful.mono hQR)
  | crash action outside hduring => exact .crash action outside (hduring.mono hQR)
  | stop => exact .stop

theorem Reaches.mono (hreaches : Reaches P J Q moment) (hQR : ∀ w e, Q w e → R w e) :
    Reaches P J R moment := by
  induction hreaches with
  | refl => exact .refl
  | tail _ hstep ih => exact .tail ih (hstep.mono hQR)

/-- An invariant of a process whose effects satisfy `Q`. -/
structure ProcessInvariant (P : Platform) (J : Backend)
    (rel : J.State → List JournalEntry → Prop) (Q : Core J → Effect → Prop) where
  up : Core J → List JournalEntry → Prop
  facing : ∀ {w log} outside, up w log → up (w.facing outside) log
  step : ∀ {w log e new w'}, Mirrored rel w log → up w log → P.Guarded w e → Q w e →
    Did P.ids.blake3 w log e new w' → Mirrored rel w' (log ++ new) → up w' (log ++ new)

/-- An invariant of the runs whose effects satisfy `Q`. -/
structure RunInvariant (P : Platform) (J : Backend) (rel : J.State → List JournalEntry → Prop)
    (Q : Core J → Effect → Prop) extends ProcessInvariant P J rel Q where
  down : List JournalEntry → Prop
  boot : ∀ {journal outside w log}, recover journal outside = some w → Mirrored rel w log →
    replay none {} log = .ok w.projection →
    w.dispatch = emptyDispatch (.ofList w.projection.iterMotes) → down log → up w log
  crash : ∀ {w log}, Mirrored rel w log → up w log → down log

namespace ProcessInvariant

variable (I : ProcessInvariant P J rel Q)

/-- The invariant of a running coordinator, for some log. -/
def Live (w : Core J) : Prop :=
  ∃ log, Mirrored rel w log ∧ I.up w log

variable {I} {w w' : Core J} (hJ : J.ReadsBack P.ids.blake3 rel)
  (hroom : ∀ w e, Q w e → HasRoom w e)

theorem live_facing (hlive : I.Live w) (outside : Outside) : I.Live (w.facing outside) := by
  obtain ⟨log, hmirrored, hup⟩ := hlive
  exact ⟨log, ⟨hmirrored.of_journaled rfl rfl, hmirrored.rel⟩, I.facing outside hup⟩

include hJ hroom

theorem live_perform (hlive : I.Live w) (he : P.Guarded w e ∧ Q w e) :
    I.Live (perform P.ids.blake3 J e w).2 := by
  obtain ⟨log, hmirrored, hup⟩ := hlive
  obtain ⟨new, hdid, hmirrored', _⟩ := hmirrored.perform hJ he.1 (hroom w e he.2)
  exact ⟨log ++ new, hmirrored', I.step hmirrored hup he.1 he.2 hdid hmirrored'⟩

/-- The invariant holds wherever a program is that keeps to the guards. -/
theorem live_run {α : Type} {p : Coord J α} (hkeeps : p.Along (P.handler J) P.Guarded w)
    (hlawful : p.Along (P.handler J) Q w) (hlive : I.Live w) : I.Live (p.run (P.handler J) w).2 :=
  (hkeeps.and hlawful).preserves (fun _ _ hlive he => live_perform hJ hroom hlive he) hlive

/-- The process is running, or was until now. -/
theorem live_step (hstep : Step P J Q (.up w todo) b) (hlive : I.Live w) :
    match b with
    | .up w' _ => I.Live w'
    | .down journal => ∃ w', I.Live w' ∧ w'.journal = journal := by
  cases hstep with
  | drain _ _ _ => exact hlive
  | act action outside hlawful =>
    exact live_run hJ hroom (keeps_act action) hlawful (live_facing hlive outside)
  | crash action outside hduring =>
    refine ⟨_, (hduring.and (keeps_act action)).preserves ?_ (live_facing hlive outside), rfl⟩
    exact fun _ _ hlive he => live_perform hJ hroom hlive he.symm
  | stop => exact ⟨w, hlive, rfl⟩

end ProcessInvariant

namespace RunInvariant

open ProcessInvariant

variable (I : RunInvariant P J rel Q)

def Holds : Moment J → Prop
  | .down journal => ∃ log, Kept rel journal log ∧ I.down log
  | .up w _ => I.Live w

variable {I} {w w' : Core J} (hJ : J.ReadsBack P.ids.blake3 rel)
  (hroom : ∀ w e, Q w e → HasRoom w e)

include hJ hroom

theorem holds_step (hstep : Step P J Q a b) (ha : I.Holds a) : I.Holds b := by
  cases a with
  | down journal =>
    cases hstep with
    | boot hrecover =>
      obtain ⟨log, hkept, hdown⟩ := ha
      obtain ⟨hmirrored, hreplay, hdispatch⟩ := hkept.mirrored_recover hJ hrecover
      exact ⟨log, hmirrored, I.boot hrecover hmirrored hreplay hdispatch hdown⟩
  | up w todo =>
    have hlive := live_step hJ hroom hstep ha
    cases b with
    | up => exact hlive
    | down journal =>
      obtain ⟨_, ⟨log, hmirrored, hup⟩, rfl⟩ := hlive
      exact ⟨log, hmirrored.kept, I.crash hmirrored hup⟩

theorem holds_of_steps (hsteps : ReflTransGen (Step P J Q) a b)
    (ha : I.Holds a) : I.Holds b := by
  induction hsteps with
  | refl => exact ha
  | tail _ hstep ih => exact holds_step hJ hroom hstep ih

variable {moment : Moment J}

/-- An invariant of the empty journal holds at every moment of every run. -/
theorem holds_of_reaches (hnew : I.down []) (hreaches : Reaches P J Q moment) :
    I.Holds moment :=
  holds_of_steps hJ hroom hreaches ⟨[], kept_new hJ, hnew⟩

/-- What the actions do as long as `Q` holds need not be asked of a run. -/
theorem holds_of_reaches_of_asLong
    {I : RunInvariant P J rel fun w e => Q w e ∧ G w e} (hdoes : ∀ action w, I.Live w →
      (P.act action).AsLong (P.handler J) (fun w e => Q w e ∧ P.Guarded w e) G w) (hnew : I.down [])
    (hreaches : Reaches P J Q moment) : I.Holds moment := by
  have hroom' : ∀ w e, Q w e ∧ G w e → HasRoom w e := fun w e he => hroom w e he.1
  induction hreaches with
  | refl => exact ⟨[], kept_new hJ, hnew⟩
  | tail _ hstep ih =>
    refine holds_step hJ hroom' ?_ ih
    cases hstep with
    | boot hrecover => exact .boot hrecover
    | drain commands hsome hbound => exact .drain commands hsome hbound
    | act action outside hlawful =>
      have hG := (hdoes action _ (live_facing ih outside)).along (hlawful.and (keeps_act action))
      exact .act action outside (hlawful.and hG)
    | crash action outside hduring =>
      have hG := (hdoes action _ (live_facing ih outside)).during (hduring.and (keeps_act action))
      exact .crash action outside (hG.mono fun _ _ he => ⟨he.1.1, he.2⟩)
    | stop => exact .stop

end RunInvariant

def IsJournal (P : Platform) (J : Backend) : Prop :=
  J = InMemory.inMemory P.ids.blake3 ∨ J = Sqlite.sqlite P.ids.blake3

theorem IsJournal.readsBack (hJ : IsJournal P J) :
    ∃ rel, J.ReadsBack P.ids.blake3 rel := by
  rcases hJ with rfl | rfl
  · exact ⟨_, InMemory.readsBack P.ids.blake3⟩
  · exact ⟨_, Sqlite.readsBack P.ids.blake3⟩

def mirroredRuns (P : Platform) (J : Backend) (rel : J.State → List JournalEntry → Prop)
    (Q : Core J → Effect → Prop) : RunInvariant P J rel Q where
  up _ _ := True
  down _ := True
  boot _ _ _ _ _ := trivial
  facing _ _ := trivial
  crash _ _ := trivial
  step _ _ _ _ _ _ := trivial

variable {w : Core J}

section Programs

variable {α : Type} {p : Coord J α}

/-- The log grows while a program runs, and what each of its effects keeps is kept. -/
theorem grows_run {G : Core J → List JournalEntry → Prop} (hJ : J.ReadsBack P.ids.blake3 rel)
    (hroom : ∀ w e, Q w e → HasRoom w e) (hkeeps : p.Along (P.handler J) P.Guarded w)
    (hlawful : p.Along (P.handler J) Q w)
    (hstep : ∀ {w' more e new w''}, P.Guarded w' e → Q w' e →
      Did P.ids.blake3 w' (log ++ more) e new w'' → G w' more → G w'' (more ++ new))
    (hw : Mirrored rel w log) (hG : G w []) :
    ∃ more, Mirrored rel (p.run (P.handler J) w).2 (log ++ more) ∧
      G (p.run (P.handler J) w).2 more := by
  have hperform : ∀ w' e, (∃ more, Mirrored rel w' (log ++ more) ∧ G w' more) →
      P.Guarded w' e ∧ Q w' e → ∃ more, Mirrored rel (perform P.ids.blake3 J e w').2 (log ++ more) ∧
        G (perform P.ids.blake3 J e w').2 more := by
    rintro w' e ⟨more, hmirrored, hG⟩ ⟨hguarded, hQ⟩
    obtain ⟨new, hdid, hmirrored', _⟩ := hmirrored.perform hJ hguarded (hroom w' e hQ)
    rw [append_assoc] at hmirrored'
    exact ⟨more ++ new, hmirrored', hstep hguarded hQ hdid hG⟩
  exact (hkeeps.and hlawful).preserves hperform ⟨[], by rwa [append_nil], hG⟩

/-- What is known of the workers stays. -/
theorem mirrored_run (hJ : J.ReadsBack P.ids.blake3 rel) (hroom : ∀ w e, Q w e → HasRoom w e)
    (hkeeps : p.Along (P.handler J) P.Guarded w) (hlawful : p.Along (P.handler J) Q w)
    (hw : ∃ log, Mirrored rel w log) :
    (∃ log, Mirrored rel (p.run (P.handler J) w).2 log) ∧
      (p.run (P.handler J) w).2.outside.status = w.outside.status := by
  obtain ⟨log, hmirrored⟩ := hw
  obtain ⟨more, hmirrored', hstatus⟩ := grows_run
    (G := fun w' _ => w'.outside.status = w.outside.status) hJ hroom hkeeps hlawful
    (fun _ _ hdid hstatus => hdid.status.trans hstatus) hmirrored rfl
  exact ⟨⟨_, hmirrored'⟩, hstatus⟩

end Programs

/-- The invariant that something is known of a Mote, if it is a matter of the journal and
every entry appended keeps it. -/
def RunInvariant.ofInfo {P : Platform} {J : Backend} {rel : J.State → List JournalEntry → Prop}
    {Q : Core J → Effect → Prop} (id : MoteId) (R : MoteInfo → Prop)
    (hundeclared : ∀ {info info' : MoteInfo}, info'.undeclared = info.undeclared → R info → R info')
    (hentry : ∀ {w log e new w'}, Mirrored rel w log → R (w.projection.info id) → P.Guarded w e →
      Q w e → Did P.ids.blake3 w log e new w' →
      ∀ x ∈ new, subject x = some id → ∀ info, R info → R (info.after x)) :
    RunInvariant P J rel Q where
  up w _ := R (w.projection.info id)
  down log := ∃ s, replay none {} log = .ok s ∧ R (s.info id)
  boot _ _ hreplay _ := of_replay hreplay
  facing _ hinfo := hinfo
  crash hmirrored hinfo := by
    obtain ⟨s, hs, hjournaled⟩ := hmirrored.journaled
    exact ⟨s, hs, hundeclared ((State.journaled_eq_iff.1 hjournaled).1 id).symm hinfo⟩
  step hmirrored hinfo hguarded hQ hdid _ :=
    hdid.info_preserves hundeclared (hentry hmirrored hinfo hguarded hQ hdid) hinfo

section Execution

variable (P) (Q) (outside : Outside)

/-- The state after the given actions, in surroundings that do not change. -/
def Core.after : List Action → Core J → Core J
  | [], w => w
  | action :: todo, w =>
    Core.after todo ((P.act action).run (P.handler J) (w.facing outside)).2

/-- All effects of the actions satisfy `Q`. -/
def Lawful : List Action → Core J → Prop
  | [], _ => True
  | action :: todo, w =>
    (P.act action).Along (P.handler J) Q (w.facing outside) ∧
      Lawful todo ((P.act action).run (P.handler J) (w.facing outside)).2

instance decidableLawful [∀ w e, Decidable (Q w e)] :
    (todo : List Action) → (w : Core J) → Decidable (Lawful P Q outside todo w)
  | [], _ => isTrue trivial
  | _ :: todo, _ => @instDecidableAnd _ _ _ (decidableLawful todo _)

instance (w : Core J) (e : Effect) : Decidable (HasRoom w e) :=
  inferInstanceAs (Decidable (_ < _))

variable {P Q} {todo : List Action} (first : List Action) (batches : List (List Command))
  (rest : List Action)

theorem steps_actions (hlawful : Lawful P Q outside todo w) :
    ReflTransGen (Step P J Q) (.up w (todo ++ rest))
      (.up (w.after P outside todo) rest) := by
  induction todo generalizing w with
  | nil => exact .refl
  | cons action todo ih => exact .head (.act action outside hlawful.1) (ih hlawful.2)

theorem steps_after (hlawful : Lawful P Q outside todo w) :
    ReflTransGen (Step P J Q) (.up w todo) (.up (w.after P outside todo) []) := by
  have hsteps := steps_actions outside [] hlawful
  rwa [append_nil] at hsteps

/-- A batch of commands and the settle passes after it. -/
theorem steps_batch (commands : List Command)
    (hcount : 0 < commands.length ∧ commands.length ≤ MAX_DRAIN)
    (hlawful : Lawful P Q outside (plan [] commands) w) :
    ReflTransGen (Step P J Q) (.up w []) (.up (w.after P outside (plan [] commands)) []) :=
  .head (.drain commands (ne_nil_of_length_pos hcount.1) hcount.2)
    (steps_after outside hlawful)

theorem lawful_append (w : Core J) :
    Lawful P Q outside (first ++ rest) w ↔
      Lawful P Q outside first w ∧ Lawful P Q outside rest (w.after P outside first) := by
  induction first generalizing w with
  | nil => exact (and_iff_right trivial).symm
  | cons action first ih => exact (and_congr_right fun _ => ih _).trans and_assoc.symm

theorem after_append (w : Core J) :
    w.after P outside (first ++ rest) = (w.after P outside first).after P outside rest := by
  induction first generalizing w with
  | nil => rfl
  | cons action first ih => exact ih _

/-- Batches of commands, one after the other. -/
theorem steps_batches
    (hcount : ∀ commands ∈ batches, 0 < commands.length ∧ commands.length ≤ MAX_DRAIN)
    (hlawful : Lawful P Q outside (batches.flatMap (plan [])) w) :
    ReflTransGen (Step P J Q) (.up w [])
      (.up (w.after P outside (batches.flatMap (plan []))) []) := by
  induction batches generalizing w with
  | nil => exact .refl
  | cons commands batches ih =>
    rw [flatMap_cons, lawful_append] at hlawful
    rw [flatMap_cons, after_append]
    have hfirst := steps_batch outside commands (hcount commands (by simp)) hlawful.1
    exact hfirst.trans (ih (fun b hb => hcount b (by simp [hb])) hlawful.2)

def started (blake3 : List UInt8 → ByteVec 32) (journal : InMemory.State) :
    Core (InMemory.inMemory blake3) :=
  let projection := (foldMany none {} journal.entries).1
  { journal
    projection
    foldedThrough := journal.nextSeq
    dispatch := emptyDispatch (.ofList projection.iterMotes)
    scheduled := ∅
    reactCache := {}
    outside }

theorem recover_inMemory (hkept : Kept (J := InMemory.inMemory blake3)
      (fun s log => InMemory.Holds s log ∧ ∀ e ∈ log, e.Readable) journal log) :
    recover (J := InMemory.inMemory blake3) journal outside =
      some (started outside blake3 journal) := by
  obtain ⟨s, hs⟩ := hkept.replays
  have hfold := (replay_eq_ok.1 hs).1
  have hentries := hkept.rel.1.entries
  have hhead : (InMemory.inMemory blake3).currentSeq journal = .ok journal.nextSeq := rfl
  unfold recover started
  rw [fromJournal_eq_replay (InMemory.readsBack blake3) hkept.rel hkept.room, hhead, hs, hentries,
    hfold]

variable {Q : Core (InMemory.inMemory P.ids.blake3) → Effect → Prop}

/-- Every coordinator starts with an empty journal. -/
theorem reaches_started :
    Reaches P (InMemory.inMemory P.ids.blake3) Q
      (.up (started outside P.ids.blake3 .new) [.recover]) :=
  .single (.boot (recover_inMemory outside (kept_new (InMemory.readsBack P.ids.blake3))))

/-- A coordinator comes to the state that batches of commands leave. -/
theorem reaches_batches
    (hcount : ∀ commands ∈ batches, 0 < commands.length ∧ commands.length ≤ MAX_DRAIN)
    (hlawful : Lawful P Q outside ([.recover] ++ batches.flatMap (plan []))
      (started outside P.ids.blake3 .new)) :
    Reaches P (InMemory.inMemory P.ids.blake3) Q
      (.up (((started outside P.ids.blake3 .new).after P outside [.recover]).after P outside
        (batches.flatMap (plan []))) []) := by
  rw [lawful_append] at hlawful
  have hstart := (reaches_started outside).trans (steps_after outside hlawful.1)
  exact hstart.trans (steps_batches outside batches hcount hlawful.2)

theorem recover_of_reaches {w : Core (InMemory.inMemory P.ids.blake3)}
    (hreaches : Reaches P (InMemory.inMemory P.ids.blake3) HasRoom (.up w todo)) :
    recover w.journal outside = some (started outside P.ids.blake3 w.journal) := by
  obtain ⟨log, hmirrored, _⟩ := (mirroredRuns P _ _ _).holds_of_reaches
    (InMemory.readsBack P.ids.blake3) (fun _ _ hroom => hroom) trivial hreaches
  exact recover_inMemory outside hmirrored.kept

/-- A process that ends is followed by one that starts from its journal. -/
theorem steps_restart {w : Core (InMemory.inMemory P.ids.blake3)}
    (hreaches : Reaches P (InMemory.inMemory P.ids.blake3) HasRoom (.up w [])) :
    ReflTransGen (Step P (InMemory.inMemory P.ids.blake3) Q) (.up w [])
      (.up (started outside P.ids.blake3 w.journal) [.recover]) :=
  .tail (.single .stop) (.boot (recover_of_reaches outside hreaches))

end Execution

instance {J : Backend} (w : Core J) : (e : Effect) → Decidable (Recorded w e)
  | .chore (.note _ _) => inferInstanceAs (Decidable (_ = true))
  | .record _ _ _ => inferInstanceAs (Decidable (_ = true))
  | .recordCommits _ => inferInstanceAs (Decidable (_ = true))
  | .recordRepudiations _ => inferInstanceAs (Decidable (_ = true))
  | .chore (.query _) | .chore (.edit _) | .update _ => isTrue trivial

instance {J : Backend} (w : Core J) (e : Effect) : Decidable (Faultless w e) :=
  inferInstanceAs (Decidable (_ ∧ _))

def sampleHash (bytes : List UInt8) : ByteVec 32 :=
  ⟨leBytes 32 (bytes.foldl (fun n b => 257 * n + b.toNat + 1) 0), length_leBytes _ _⟩

def sampleIds : Identity where
  blake3 := sampleHash
  canonical d := d.configSubset.toList.flatMap fun (key, value) => utf8Bytes key ++ value

def pureDef (config : Std.ExtTreeMap ConfigKey ConfigVal) : MoteDef where
  logicRef := .replicate 32 0
  modelId := "model"
  promptTemplateHash := .replicate 32 0
  ndClass := .pure
  configSubset := config
  effectPattern := .idempotentByConstruction
  schemaVersion := 5

def stepAt (d : MoteDef) (position : UInt8) (parents : List ParentRef) : Mote :=
  Mote.new sampleIds d (.replicate 32 0) [position] parents

def samplePlatform : Platform where
  ids := sampleIds
  encodeWarrant _ := []
  decodeWarrant _ := none
  fromUtf8Lossy _ := ""
  criticVerdict _ := none
  validateMoteSubmission _ _ _ := none
  approvalRequestId _ _ := .replicate _ 0
  buildChainTurn _ _ _ _ _ _ := stepAt (pureDef ∅) 0 []
  buildChainTool _ _ _ _ _ _ _ _ := stepAt (pureDef ∅) 0 []
  buildRerankTurn _ _ _ _ _ := stepAt (pureDef ∅) 0 []
  buildReplanShaper _ _ _ := stepAt (pureDef ∅) 0 []
  correctedPrompt prompt _ := prompt
  renderTurnInstruction instruction _ _ := instruction
  topologyDecision _ := none
  resolveChildDef d _ := d
  maxArgsBytes _ := 0
  parseToolCalls _ _ _ := .ok []
  debugToolCallError _ := ""
  isDuplicateCall _ _ := false
  duplicateCallReason _ := ""
  looksLikeAnAttemptedToolCall _ _ := false
  unreadableToolCallReason := ""
  answerIsAContinuation _ _ := false
  continuationAnswerReason := ""
  observationFailureReason _ _ _ _ := ""
  extractAnswer _ := none
  parsePermutation _ _ := none
  normalizeLenientArgs args := args
  jsonString _ := none
  jsonU32 _ := none
  jsonBool _ := none
  jsonUrl _ := none
  contentRefFromArg _ := none
  retrieveQueryAndCount _ := none
  reorderRetrievalObservation _ _ := none
  retrievalObservation _ _ := []
  decodeContextItems _ := []
  encodeContextItemsOrdered _ := []

/-- Every worker lives, the disk takes everything, and no time passes. -/
def sampleOutside : Outside where
  store := none
  roles := none
  diskTakes _ := true
  nowMs := 0
  approvalNowMs := 0
  freshInstanceId := .replicate _ 1
  status _ := some .live
  place _ _ := 1
  lookup _ _ := none
  resolve _ _ := none
  estimateSpend _ _ := 0
  serveLlmRerankEnabled := false
  serveRequireApprovalDefault := false

abbrev sampleJournal : Backend := InMemory.inMemory samplePlatform.ids.blake3

def submitAt (d : MoteDef) (position : UInt8) (parents : List ParentRef) : Command :=
  .submit d (.replicate 32 0) [position] parents {} false false

def registerSampleRun : Command := .registerRun (.replicate _ 0)

def poll (worker : WorkerId) : Command := .leaseWork ⟨worker, .bwrap, 10⟩

def commitOf (id : MoteId) : CommitProposal where
  moteId := id
  idempotencyKey := id.bytes
  resultRef := ⟨id.bytes⟩
  warrantRef := ⟨.replicate 32 0⟩
  moteDefHash := ⟨.replicate 32 0⟩
  ndClass := .pure
  parents := []
  key_eq := rfl
  length_parents := Nat.zero_le _
  data_cascades := by simp

def sampleStart : Core sampleJournal :=
  (started sampleOutside samplePlatform.ids.blake3 .new).after samplePlatform sampleOutside
    [.recover]

theorem reaches_sampleStart : Reaches samplePlatform sampleJournal HasRoom (.up sampleStart []) :=
  (reaches_started sampleOutside).trans (steps_after sampleOutside (by decide +kernel))

/-- The live state is the replay of the journal: nothing is left to fold, and what the
projection owes to the journal is what folding the whole journal gives. -/
def IsReplay (w : Core J) : Prop :=
  J.currentSeq w.journal = .ok w.foldedThrough ∧
    ∃ s, fromJournal J w.journal = .ok s ∧ w.projection.journaled = s.journaled

theorem Mirrored.isReplay {blake3 : List UInt8 → ByteVec 32} (hJ : J.ReadsBack blake3 rel)
    {log : List JournalEntry} (hmirrored : Mirrored rel w log) : IsReplay w := by
  constructor
  · rw [hJ.currentSeq hmirrored.rel, hmirrored.watermark]
  · rw [fromJournal_eq_replay hJ hmirrored.rel hmirrored.room]
    exact hmirrored.journaled

/-- For every sequence of commands, settle passes, crashes and restarts on either journal,
as long as the journal has seqs left: the live state is the replay of the journal. An
append that fails leaves both as they were. -/
theorem isReplay_of_reaches (hJ : IsJournal P J) {w : Core J} {todo : List Action}
    (hreaches : Reaches P J HasRoom (.up w todo)) : IsReplay w := by
  obtain ⟨rel, hreads⟩ := hJ.readsBack
  obtain ⟨log, hmirrored, _⟩ :=
    (mirroredRuns P J rel _).holds_of_reaches hreads (fun _ _ hroom => hroom) trivial hreaches
  exact hmirrored.isReplay hreads

def commitOneStep : List Command :=
  [registerSampleRun, submitAt (pureDef ∅) 1 [], poll 1,
    .commit (commitOf (stepAt (pureDef ∅) 1 []).id)]

theorem isReplay_of_reaches_commitOneStep :
    let w := sampleStart.after samplePlatform sampleOutside (plan [] commitOneStep)
    Reaches samplePlatform sampleJournal HasRoom (.up w []) ∧
      w.projection.stateOfId (stepAt (pureDef ∅) 1 []).id = .committed ∧ IsReplay w := by
  have hreaches := reaches_sampleStart.trans
    (steps_batch sampleOutside commitOneStep (by decide) (by decide +kernel))
  exact ⟨hreaches, by decide +kernel, isReplay_of_reaches (.inl rfl) hreaches⟩

/-- What the log holds for a staged effect, if its key stands for no other Mote. -/
theorem stages_append {e : EffectStaged}
    (hkey : ∀ x, .effectStaged x ∈ log → x.idempotencyKey = e.idempotencyKey →
      x.moteId = e.moteId) :
    (DedupLog.append entryScheme log (.effectStaged e)).1.any (stages e.moteId) = true := by
  have hmem := DedupLog.mem_append_snd entryScheme log (.effectStaged e)
  have hkeys := DedupLog.key_append_snd entryScheme log (.effectStaged e)
  have hsame := (dedupeKey_eq_iff (b := .effectStaged e) rfl).1 hkeys
  refine any_eq_true.2 ⟨_, hmem, ?_⟩
  rcases DedupLog.mem_append_fst hmem with hold | ⟨_, hnew⟩
  · generalize (DedupLog.append entryScheme log (.effectStaged e)).2 = found at hsame hold
    cases found with
    | effectStaged x => simpa [stages] using hkey x hold hsame.2
    | _ => cases hsame.1
  · rw [hnew]
    simp [stages, entryScheme, JournalEntry.setSeq]

/-- In every run, an acknowledged report of a staged effect is in the journal and the recovery
oracle sees it, if the report's key stands for no other Mote in the journal. -/
theorem staged_of_reaches (hJ : IsJournal P J) {w : Core J} {todo : List Action}
    (hreaches : Reaches P J HasRoom (.up w todo)) (outside : Outside) {id : MoteId}
    {key : IdempotencyKey}
    (hroom : (stageEffect id key).Along (P.handler J) HasRoom (w.facing outside))
    (hkey : ∀ x, .effectStaged x ∈ J.durable w.journal → x.idempotencyKey = key → x.moteId = id)
    (hok : ((stageEffect id key).run (P.handler J) (w.facing outside)).1.isOk) :
    let w' := ((stageEffect id key).run (P.handler J) (w.facing outside)).2
    (J.durable w'.journal).any (stages id) = true ∧
      (w'.projection.info id).effectStagedObserved = true := by
  obtain ⟨rel, hreads⟩ := hJ.readsBack
  obtain ⟨log, hmirrored, _⟩ :=
    (mirroredRuns P J rel _).holds_of_reaches hreads (fun _ _ hroom => hroom) trivial hreaches
  have hfacing : Mirrored rel (w.facing outside) log :=
    ⟨hmirrored.of_journaled rfl rfl, hmirrored.rel⟩
  rw [hreads.durable hmirrored.rel] at hkey
  have hfits : log.length + 2 < SEQ_LIMIT := by
    have hrecords := hreads.length_records hmirrored.rel
    have hone := hroom.1
    change (J.records w.journal).length + 1 + 1 < _ at hone
    omega
  let e : EffectStaged := ⟨id, key, 0⟩
  rcases absorbs_record hreads hfacing (e := .effectStaged e) ⟨trivial, trivial, rfl⟩ hfits true []
    with ⟨hfail, _⟩ | ⟨_, new, s, journal, hlog, _, _, hgrown⟩
  · change (Except.mapError _ ((w.facing outside).record (.effectStaged e) true []).1).isOk = true
      at hok
    cases hresult : ((w.facing outside).record (.effectStaged e) true []).1 with
    | error err => simp [hresult, Except.mapError, Except.isOk, Except.toBool] at hok
    | ok seq => simp [hresult, Except.isOk, Except.toBool] at hfail
  · have hstaged : (log ++ new).any (stages id) = true := hlog ▸ stages_append (e := e) hkey
    exact ⟨(hreads.durable hgrown.rel).symm ▸ hstaged, (hgrown.tracks id).staged.trans hstaged⟩

/-- The first step is reported as staged. -/
def firstStaged : Core sampleJournal :=
  sampleStart.after samplePlatform sampleOutside (plan [] [.reportEffectStaged
    (stepAt (pureDef ∅) 1 []).id (stepAt (pureDef ∅) 1 []).id.bytes])

theorem reaches_firstStaged : Reaches samplePlatform sampleJournal HasRoom (.up firstStaged []) :=
  reaches_sampleStart.trans (steps_batch sampleOutside _ (by decide) (by decide +kernel))

/-- The second report has a key of its own. -/
theorem staged_of_reaches_ownKey :
    let id := (stepAt (pureDef ∅) 2 []).id
    let w' := ((stageEffect id id.bytes).run (samplePlatform.handler _)
      (firstStaged.facing sampleOutside)).2
    (sampleJournal.durable firstStaged.journal).length = 1 ∧
      (sampleJournal.durable w'.journal).any (stages id) = true ∧
      (w'.projection.info id).effectStagedObserved = true := by
  have hone : sampleJournal.durable firstStaged.journal = [.effectStaged
      ⟨(stepAt (pureDef ∅) 1 []).id, (stepAt (pureDef ∅) 1 []).id.bytes, 1⟩] := by
    decide +kernel
  have hkeys : (stepAt (pureDef ∅) 1 []).id.bytes ≠ (stepAt (pureDef ∅) 2 []).id.bytes := by
    decide +kernel
  have hkey : ∀ x, .effectStaged x ∈ sampleJournal.durable firstStaged.journal →
      x.idempotencyKey = (stepAt (pureDef ∅) 2 []).id.bytes →
      x.moteId = (stepAt (pureDef ∅) 2 []).id := by
    intro x hx hkey
    rw [hone, mem_singleton, JournalEntry.effectStaged.injEq] at hx
    subst hx
    exact absurd hkey hkeys
  have hJ : IsJournal samplePlatform sampleJournal := .inl rfl
  have hstaged := staged_of_reaches hJ reaches_firstStaged sampleOutside (by decide +kernel) hkey
    (by decide +kernel)
  exact ⟨congrArg length hone, hstaged⟩

/-- Two Motes are reported with one key: both reports are acknowledged, and the journal has the
first only. -/
theorem not_staged_sharedKey :
    let first := (stepAt (pureDef ∅) 1 []).id
    let second := (stepAt (pureDef ∅) 2 []).id
    let staged := (stageEffect second first.bytes).run (samplePlatform.handler _) firstStaged
    Reaches samplePlatform sampleJournal HasRoom (.up firstStaged []) ∧ staged.1.isOk ∧
      (sampleJournal.durable staged.2.journal).any (stages second) = false ∧
      (staged.2.projection.info second).effectStagedObserved = false :=
  ⟨reaches_firstStaged, by decide +kernel, by decide +kernel, by decide +kernel⟩

end Kortecx.Coordinator
