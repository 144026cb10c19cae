import Elocution.Proofs.Session.Flow
import Elocution.Proofs.Block.Conservation

/-!
# The score of a session

A call comes to a list of items: requests that are made of the engine and markers that are to be
reported, with the end of the utterance last. What is queued for a call is read off its items and
the answers of the engine, of which only the markers matter, repeats within a clause aside.
-/

namespace Elocution

namespace Speech

inductive Item where
  | ask (request : Request)
  /-- A marker, or none for the end of an utterance. -/
  | tell (mark : Option Marker)

namespace Item

def request? : Item → Option Request
  | .ask q => some q
  | .tell _ => none

/-- The requests among these items. -/
def requests (items : List Item) : List Request := items.filterMap request?

theorem requests_ask (q : Request) (items : List Item) :
    requests (.ask q :: items) = q :: requests items := rfl

theorem requests_tell (x : Option Marker) (items : List Item) :
    requests (.tell x :: items) = requests items := rfl

theorem requests_append (items more : List Item) :
    requests (items ++ more) = requests items ++ requests more := by
  simp [requests]

@[simp] theorem requests_nil : requests [] = [] := rfl

theorem requests_tells {α : Type} (marks : List α) (f : α → Option Marker) :
    requests (marks.map fun x => .tell (f x)) = [] := by
  simp [requests, request?, List.filterMap_map, Function.comp_def]

end Item

namespace Rig

variable (rig : Rig)

/-- The markers that the engine gives for a request, repeats aside; none if it fails. -/
def answers (past : List Request) (q : Request) : List Marker :=
  match rig.engine past q with
  | .ok frames => (frames.filterMap Frame.marker).destutter (· ≠ ·)
  | .error _ => []

/-- What is reported of these items, if these requests have been made before. -/
def recite (past : List Request) : List Item → List (Option Marker)
  | [] => []
  | .ask q :: rest => (rig.answers past q).map some ++ recite (past ++ [q]) rest
  | .tell x :: rest => x :: recite past rest

/-- A block is spoken clause by clause, and its markers follow. -/
def blockItems (settings : VoiceSettings) (b : Block) : List Item :=
  (Clause.split settings.pauseMode b.text).map
      (fun c => .ask (rig.request settings.voice (settings.prosody.offsetPitch b.offset) c)) ++
    b.markers.map (fun m => .tell (some m))

def jobItems (settings : VoiceSettings) : JobKind → List Item
  | .speak blocks => blocks.flatMap (rig.blockItems settings) ++ [.tell none]
  | .notify markers => markers.map (fun m => .tell (some m)) ++ [.tell none]

/-- The blocks of a call. -/
def blocks (x : Saying) : List Block := Block.segment rig.limits x.paged x.commands

/-- What a call comes to under given settings. -/
def items (settings : VoiceSettings) (x : Saying) : List Item :=
  (rig.blocks x).flatMap (rig.blockItems settings) ++ [.tell none]

variable {rig} {settings : VoiceSettings}

theorem recite_append (past : List Request) (items more : List Item) :
    rig.recite past (items ++ more) =
      rig.recite past items ++ rig.recite (past ++ Item.requests items) more := by
  induction items generalizing past with
  | nil => simp [recite, Item.requests]
  | cons item rest ih =>
    cases item with
    | ask q => simp [recite, ih, Item.requests_ask]
    | tell x => simp [recite, ih, Item.requests_tell]

theorem recite_tells {α : Type} (past : List Request) (marks : List α) (f : α → Option Marker) :
    rig.recite past (marks.map fun x => .tell (f x)) = marks.map f := by
  induction marks with
  | nil => rfl
  | cons x rest ih => simp [recite, ih]

/-- A text that is empty has no clauses. -/
theorem blockItems_of_not_hasText {b : Block} (h : b.hasText = false) :
    rig.blockItems settings b = b.markers.map fun m => .tell (some m) := by
  have htext : b.text = [] := by simpa [Block.hasText] using h
  have hsplit : Clause.split settings.pauseMode [] = [] := rfl
  rw [blockItems, htext, hsplit]
  rfl

theorem flatMap_blockItems_of_no_text {blocks : List Block}
    (h : blocks.any Block.hasText = false) :
    blocks.flatMap (rig.blockItems settings) =
      (blocks.flatMap Block.markers).map fun m => .tell (some m) := by
  induction blocks with
  | nil => rfl
  | cons b rest ih =>
    simp only [List.any_cons, Bool.or_eq_false_iff] at h
    rw [List.flatMap_cons, List.flatMap_cons, List.map_append, blockItems_of_not_hasText h.1,
      ih h.2]

/-- Whether or not a job is to be spoken, it comes to the items of its blocks. -/
theorem jobItems_ofBlocks (blocks : List Block) :
    rig.jobItems settings (.ofBlocks blocks) =
      blocks.flatMap (rig.blockItems settings) ++ [.tell none] := by
  unfold JobKind.ofBlocks
  split
  · rfl
  · rename_i h
    rw [jobItems, flatMap_blockItems_of_no_text (by simpa using h)]

theorem none_notMem_recite {past : List Request} {items : List Item} (h : .tell none ∉ items) :
    none ∉ rig.recite past items := by
  induction items generalizing past with
  | nil => exact List.not_mem_nil
  | cons item rest ih =>
    obtain ⟨hitem, hrest⟩ := not_or.mp (List.mem_cons.not.mp h)
    cases item with
    | ask q => simp [recite, ih hrest]
    | tell x =>
      have hx : none ≠ x := fun hx => hitem (congrArg Item.tell hx)
      simp [recite, ih hrest, hx]

theorem tell_none_notMem_blockItems (settings : VoiceSettings) (blocks : List Block) :
    .tell none ∉ blocks.flatMap (rig.blockItems settings) := by
  simp [blockItems]

variable (rig) in
/-- The markers of a call: for each block those of the engine, clause by clause, and then the
markers that follow its text. -/
def callMarkers (past : List Request) (settings : VoiceSettings) (x : Saying) : List Marker :=
  (rig.recite past ((rig.blocks x).flatMap (rig.blockItems settings))).filterMap id

variable (rig) in
/-- What the host is told of calls, each under its settings: the markers of each, and that it is
done. -/
def notices (past : List Request) : List (VoiceSettings × Saying) → List (Option Marker)
  | [] => []
  | (settings, x) :: rest =>
    (rig.callMarkers past settings x).map some ++
      none :: notices (past ++ Item.requests (rig.items settings x)) rest

/-- A call is told of as its items are. -/
theorem recite_items (past : List Request) (settings : VoiceSettings) (x : Saying) :
    rig.recite past (rig.items settings x) =
      (rig.callMarkers past settings x).map some ++ [none] := by
  have hsome {marks : List (Option Marker)} (h : none ∉ marks) :
      (marks.filterMap id).map some = marks := by
    induction marks with
    | nil => rfl
    | cons x rest ih =>
      obtain ⟨hx, hrest⟩ := not_or.mp (List.mem_cons.not.mp h)
      cases x with
      | none => exact absurd rfl hx
      | some m => exact congrArg (some m :: ·) (ih hrest)
  rw [items, recite_append, callMarkers,
    hsome (none_notMem_recite (tell_none_notMem_blockItems settings _))]
  rfl

/-- A call without speakable text reports just its markers. -/
theorem callMarkers_of_blank {x : Saying} (past : List Request) (settings : VoiceSettings)
    (h : ∀ run, .text run ∈ x.commands → Text.allBlank run = true) :
    rig.callMarkers past settings x = x.commands.filterMap Command.marker? := by
  have hblocks : (rig.blocks x).any Block.hasText = false := Block.hasText_segment_of_blank _ _ h
  rw [callMarkers, flatMap_blockItems_of_no_text hblocks, recite_tells, blocks,
    Block.markers_segment, List.filterMap_map]
  exact List.filterMap_some

end Rig

/-- What is still to come of a task. -/
def Task.items (rig : Rig) (settings : VoiceSettings) : Task → List Item
  | .block b => rig.blockItems settings b
  | .clause prosody c => [.ask (rig.request settings.voice prosody c)]
  | .stream _ shaper frames => (shaper.due frames).map fun m => .tell (some m)
  | .marker m _ => [.tell (some m)]
  | .frame f => f.marks.map .tell
  | .lowerAllQueued | .kick | .signal _ | .raiseAllQueued => []

/-- What is still to come of the job at hand. -/
def Synthesizer.items (rig : Rig) : Synthesizer → List Item
  | .working p tasks => tasks.flatMap (Task.items rig p.settings)
  | .idle | .fetched _ | .exited => []

/-- The job that has been taken and not begun. -/
def Synthesizer.fetched? : Synthesizer → Option Job
  | .fetched job => some job
  | _ => none

variable {rig : Rig} {settings : VoiceSettings}

namespace Task

theorem flatMap_items_map {α : Type} (xs : List α) (task : α → Task) (item : α → Item)
    (h : ∀ x, (task x).items rig settings = [item x]) :
    (xs.map task).flatMap (Task.items rig settings) = xs.map item := by
  induction xs with
  | nil => rfl
  | cons x rest ih => rw [List.map_cons, List.flatMap_cons, ih, h, List.map_cons]; rfl

theorem flatMap_items_ofMarkers (markers : List Marker) :
    (ofMarkers markers).flatMap (Task.items rig settings) =
      markers.map fun m => .tell (some m) := by
  cases markers with
  | nil => rfl
  | cons m rest =>
    rw [ofMarkers, List.flatMap_cons, flatMap_items_map rest _ (fun m => .tell (some m))]
    · rfl
    · exact fun _ => rfl

theorem flatMap_items_ofJob (kind : JobKind) :
    (ofJob kind).flatMap (Task.items rig settings) = rig.jobItems settings kind := by
  cases kind with
  | speak blocks =>
    have hblocks : (blocks.map Task.block).flatMap (Task.items rig settings) =
        blocks.flatMap (rig.blockItems settings) := by
      rw [List.flatMap_map]
      rfl
    rw [ofJob, List.flatMap_cons, List.flatMap_append, hblocks]
    rfl
  | notify markers =>
    rw [ofJob, List.flatMap_cons, List.flatMap_append,
      flatMap_items_map markers _ (fun m => .tell (some m))]
    · rfl
    · exact fun _ => rfl

theorem flatMap_items_block (b : Block) :
    ((Clause.split settings.pauseMode b.text).map
        (Task.clause (settings.prosody.offsetPitch b.offset)) ++ ofMarkers b.markers).flatMap
      (Task.items rig settings) = rig.blockItems settings b := by
  rw [List.flatMap_append, flatMap_items_ofMarkers, Rig.blockItems,
    flatMap_items_map _ _ (fun c => .ask (rig.request settings.voice _ c))]
  exact fun _ => rfl

theorem flatMap_items_clause (prosody : Prosody) (c : Clause) (tasks : List Task) :
    (Task.clause prosody c :: tasks).flatMap (Task.items rig settings) =
      .ask (rig.request settings.voice prosody c) :: tasks.flatMap (Task.items rig settings) := rfl

theorem flatMap_items_afterStream (voiced : Bool) (pause : Option Float32) :
    (afterStream voiced pause).flatMap (Task.items rig settings) = [] := by
  cases voiced <;> cases pause <;> rfl

end Task

/-- A task that queues a frame takes the marks of that frame off what is to come. -/
theorem Emits.flatMap_items {p q : Progress} {task : Task} {tasks rest : List Task} {f : Frame}
    (h : Emits p tasks task q f rest) (hn : task.IsNeutral ∨ task.ends = true) :
    (task :: tasks).flatMap (Task.items rig settings) =
      f.marks.map .tell ++ rest.flatMap (Task.items rig settings) := by
  cases h with
  | @stream pause shaper next frames rest f h =>
    have hplain : shaper.IsPlain frames := hn.resolve_right (by rintro ⟨⟩)
    obtain ⟨hdue, hends, -⟩ := Frame.Shaper.due_next hplain h
    simp only [List.flatMap_cons, Task.items, hdue, Frame.marks_of_not_ends hends, List.map_append,
      List.map_map, List.append_assoc]
    rfl
  | marker => rfl
  | frame => rfl

theorem Emits.settings_eq {p q : Progress} {task : Task} {tasks rest : List Task} {f : Frame}
    (h : Emits p tasks task q f rest) : q.settings = p.settings := by
  cases h <;> rfl

/-- What the calls come to, each under the settings it was begun with. -/
def Rig.score (rig : Rig) (calls : List (VoiceSettings × Saying)) : List Item :=
  calls.flatMap fun x => rig.items x.1 x.2

theorem Rig.recite_score (past : List Request) (calls : List (VoiceSettings × Saying)) :
    rig.recite past (rig.score calls) = rig.notices past calls := by
  induction calls generalizing past with
  | nil => rfl
  | cons x rest ih =>
    rw [score, List.flatMap_cons, recite_append, recite_items, ← score, ih, notices,
      List.append_assoc]
    rfl

variable (rig) in
/-- Each call is done once. -/
theorem Rig.count_notices (past : List Request) (calls : List (VoiceSettings × Saying)) :
    (rig.notices past calls).count none = calls.length := by
  induction calls generalizing past with
  | nil => rfl
  | cons x rest ih =>
    have hmarkers (marks : List Marker) : (marks.map some).count none = 0 := by
      simp [List.count_eq_zero]
    rw [notices, List.count_append, hmarkers, List.count_cons_self, ih, List.length_cons,
      Nat.zero_add]

variable (rig) in
/-- The last that the host is told of calls is that they are done. -/
theorem Rig.notices_concat (past : List Request) (calls : List (VoiceSettings × Saying))
    (x : VoiceSettings × Saying) :
    ∃ marks, rig.notices past (calls ++ [x]) = marks ++ [none] := by
  induction calls generalizing past with
  | nil => exact ⟨_, rfl⟩
  | cons y rest ih =>
    obtain ⟨marks, hmarks⟩ := ih (past ++ Item.requests (rig.items y.1 y.2))
    refine ⟨(rig.callMarkers past y.1 y.2).map some ++ none :: marks, ?_⟩
    rw [List.cons_append, notices, hmarks, List.append_assoc]
    rfl

variable (rig) in
theorem Rig.notices_grow (past : List Request) (calls more : List (VoiceSettings × Saying)) :
    rig.notices past calls <+: rig.notices past (calls ++ more) := by
  rw [← recite_score, ← recite_score, score, score, List.flatMap_append, recite_append]
  exact List.prefix_append ..

theorem Rig.score_append (calls : List (VoiceSettings × Saying)) (settings : VoiceSettings)
    (x : Saying) :
    rig.score (calls ++ [(settings, x)]) = rig.score calls ++ rig.items settings x := by
  simp [Rig.score]

namespace Session

/-- Of the calls that have been made some have been begun and the others wait. What is queued and
what is still to come of the job at hand is what the calls that have been begun come to. -/
structure Scored (rig : Rig) (begun : List (VoiceSettings × Saying)) (waiting : List Saying)
    (s : Session) : Prop where
  jobs : (s.synthesizer.fetched?.toList ++ s.jobs.jobs).map Job.kind =
    waiting.map fun x => .ofBlocks (rig.blocks x)
  requests : s.requests ++ Item.requests (s.synthesizer.items rig) =
    Item.requests (rig.score begun)
  marks : s.queued.flatMap Frame.marks ++ rig.recite s.requests (s.synthesizer.items rig) =
    rig.recite [] (rig.score begun)

variable {s t : Session} {begun : List (VoiceSettings × Saying)} {waiting : List Saying}

/-- Tasks give way to others that come to the same. -/
theorem Scored.work (h : s.Scored rig begun waiting) {p q : Progress} {tasks rest : List Task}
    {signals : List Signal} {allQueued speaking : Bool} (hw : s.synthesizer = .working p tasks)
    (hi : rest.flatMap (Task.items rig q.settings) = tasks.flatMap (Task.items rig p.settings)) :
    Scored rig begun waiting { s with
      signals := signals, allQueued := allQueued, speaking := speaking
      synthesizer := .working q rest } := by
  obtain ⟨hj, hr, hm⟩ := h
  simp only [hw, Synthesizer.items, Synthesizer.fetched?, ← hi] at hj hr hm
  exact ⟨hj, hr, hm⟩

theorem Scored.synthesis (h : s.Scored rig begun waiting) (hf : s.Flowing) (ho : s.Open)
    (hz : s.generation = 0) (hst : Synthesis rig s t) :
    t.Scored rig begun waiting ∨
      ∃ x rest, waiting = x :: rest ∧ t.Scored rig (begun ++ [(s.settings, x)]) rest := by
  obtain ⟨hj, hr, hm⟩ := id h
  have hstale {stamp : Stamp} (hle : stamp ≤ s.generation) (hne : s.generation ≠ stamp) :
      False := by
    rw [hz] at hle hne
    exact hne (Nat.le_zero.mp hle).symm
  have hdated := hf.dated.synthesizer
  cases hst with
  | @fetch job rest hi hopen hjobs =>
    left
    rw [hi] at hr hm
    refine ⟨?_, hr, hm⟩
    simpa [hi, hjobs, Synthesizer.fetched?] using hj
  | exit hi hc => simp [ho.jobs] at hc
  | @begin job hfetched hc =>
    right
    cases waiting with
    | nil => simp [hfetched, Synthesizer.fetched?] at hj
    | cons x rest =>
      simp only [hfetched, Synthesizer.fetched?, Option.toList_some, List.singleton_append,
        List.map_cons, List.cons.injEq] at hj
      simp only [hfetched, Synthesizer.items, Item.requests_nil, List.append_nil,
        Rig.recite] at hr hm
      have hitems : (Task.ofJob job.kind).flatMap (Task.items rig s.settings) =
          rig.items s.settings x := by
        rw [Task.flatMap_items_ofJob, hj.1, Rig.jobItems_ofBlocks]
        rfl
      refine ⟨x, rest, rfl, hj.2, ?_, ?_⟩
      · simp only [Synthesizer.items, hitems, Rig.score_append, Item.requests_append, hr]
      · simp only [Synthesizer.items, hitems, Rig.score_append, Rig.recite_append, ← hm, ← hr,
          List.nil_append]
  | drop hfetched hc =>
    rw [hfetched] at hdated
    exact (hstale hdated hc).elim
  | finish hw =>
    left
    rw [hw] at hj hr hm
    exact ⟨hj, hr, hm⟩
  | abandon hw hc =>
    rw [hw] at hdated
    exact (hstale hdated.1 hc).elim
  | @put p q task tasks rest f hw hc he =>
    left
    have hitems : (task :: tasks).flatMap (Task.items rig p.settings) =
        f.marks.map .tell ++ rest.flatMap (Task.items rig p.settings) :=
      he.flatMap_items ((hf.staged p _ hw hc.symm).isNeutral_or_ends he)
    have hrest : (if q.kicked then rest else .kick :: rest).flatMap
        (Task.items rig (q.noting f).settings) = rest.flatMap (Task.items rig p.settings) := by
      have hsettings : (q.noting f).settings = p.settings := he.settings_eq
      rw [hsettings]
      split <;> rfl
    have hnone : Item.requests (f.marks.map .tell) = [] := Item.requests_tells f.marks id
    have hmarks : rig.recite s.requests (f.marks.map .tell) = f.marks :=
      (Rig.recite_tells _ f.marks id).trans (List.map_id _)
    simp only [hw, Synthesizer.items, hitems, Item.requests_append, hnone, List.nil_append,
      Rig.recite_append, hmarks, List.append_nil] at hr hm
    refine ⟨by simpa [hw, Synthesizer.fetched?] using hj, ?_, ?_⟩
    · simp only [Synthesizer.items, hrest]
      exact hr
    · simp only [Synthesizer.items, hrest, List.flatMap_append, List.flatMap_singleton, ← hm,
        List.append_assoc]
  | lower hw => exact .inl (h.work hw rfl)
  | @block p b tasks hw hc =>
    refine .inl (h.work hw ?_)
    rw [List.flatMap_append, Task.flatMap_items_block]
    rfl
  | @refused p prosody c tasks fault hw he =>
    left
    have hanswers : rig.answers s.requests (rig.request p.settings.voice prosody c) = [] := by
      rw [Rig.answers, he]
    simp only [hw, Synthesizer.items, Task.flatMap_items_clause, Item.requests_ask, Rig.recite,
      hanswers, List.map_nil, List.nil_append] at hr hm
    refine ⟨by simpa [hw, Synthesizer.fetched?] using hj, ?_, hm⟩
    simpa [Synthesizer.items] using hr
  | @answered p prosody c tasks frames hw he =>
    left
    have hdue (clip : Bool) : Frame.Shaper.due { clipLeading := clip } frames =
        rig.answers s.requests (rig.request p.settings.voice prosody c) := by
      rw [Rig.answers, he]
      exact Frame.collapse_none _
    simp only [hw, Synthesizer.items, Task.flatMap_items_clause, Item.requests_ask,
      Rig.recite] at hr hm
    refine ⟨by simpa [hw, Synthesizer.fetched?] using hj, ?_, ?_⟩
    · simp only [Synthesizer.items, List.flatMap_cons, Task.items, hdue, Item.requests_append,
        Item.requests_tells, List.nil_append]
      simpa using hr
    · simp only [Synthesizer.items, List.flatMap_cons, Task.items, hdue, Rig.recite_append,
        Rig.recite_tells, Item.requests_tells, List.append_nil]
      exact hm
  | @exhaust p pause shaper next frames rest tasks hw hnext =>
    refine .inl (h.work hw ?_)
    rw [List.flatMap_append, Task.flatMap_items_afterStream, List.flatMap_cons, Task.items,
      Frame.Shaper.due_of_next_none hnext]
    rfl
  | kick hw => exact .inl (h.work hw rfl)
  | withhold hw hc => exact .inl (h.work hw rfl)
  | signal hw => exact .inl (h.work hw rfl)
  | raise hw => exact .inl (h.work hw rfl)

theorem Scored.playback (h : s.Scored rig begun waiting) (hst : Playback rig s t) :
    t.Scored rig begun waiting := by
  obtain ⟨hj, hr, hm⟩ := h
  cases hst <;> exact ⟨hj, hr, hm⟩

/-- A step makes a call, begins one that waits, or does neither. -/
theorem Scored.step {a : Act} (h : s.Scored rig begun waiting) (hf : s.Flowing) (ho : s.Open)
    (hz : s.generation = 0) (hst : Step rig s a t) (ha : a.isCancel = false) :
    t.Scored rig begun (waiting ++ a.saying?.toList) ∨
      a.saying? = none ∧
        ∃ x rest, waiting = x :: rest ∧ t.Scored rig (begun ++ [(s.settings, x)]) rest := by
  cases hst with
  | call hh hc =>
    left
    obtain ⟨hj, hr, hm⟩ := h
    cases hc with
    | speak =>
      refine ⟨?_, hr, hm⟩
      simp only [JobQueue.push, ho.jobs, Bool.false_eq_true, if_false, ← List.append_assoc,
        List.map_append, hj]
      rfl
    | ignore he => simp [ho.lasts] at he
    | cancel => simp [Act.isCancel] at ha
    | terminate => simp [Act.isCancel] at ha
    | pause => exact ⟨by simpa [Act.saying?] using hj, hr, hm⟩
    | request => exact ⟨by simpa [Act.saying?] using hj, hr, hm⟩
    | configure => exact ⟨by simpa [Act.saying?] using hj, hr, hm⟩
  | proceed hh => simp [hf.host] at hh
  | synthesize hs =>
    rcases h.synthesis hf ho hz hs with h' | h'
    · exact .inl (by simpa [Act.saying?] using h')
    · exact .inr ⟨rfl, h'⟩
  | play hp => exact .inl (by simpa [Act.saying?] using h.playback hp)
  | expire =>
    obtain ⟨hj, hr, hm⟩ := h
    exact .inl ⟨by simpa [Act.saying?] using hj, hr, hm⟩
  | sound =>
    obtain ⟨hj, hr, hm⟩ := h
    exact .inl ⟨by simpa [Act.saying?] using hj, hr, hm⟩
  | callBack =>
    obtain ⟨hj, hr, hm⟩ := h
    exact .inl ⟨by simpa [Act.saying?] using hj, hr, hm⟩

/-- Each of the calls that have been begun was begun after it was made, under the settings of that
moment. -/
def Timely (rig : Rig) (s : Session) (acts : List Act) (begun : List (VoiceSettings × Saying)) :
    Prop :=
  ∀ (k : Nat) (x : VoiceSettings × Saying), begun[k]? = some x →
    ∃ before u, before <+: acts ∧ Run (step? rig) s before u ∧ u.settings = x.1 ∧
      (before.filterMap Act.saying?)[k]? = some x.2

namespace Timely

variable {acts more : List Act}

theorem append (h : s.Timely rig acts begun) : s.Timely rig (acts ++ more) begun := by
  intro k x hx
  obtain ⟨before, u, hp, hu⟩ := h k x hx
  exact ⟨before, u, hp.trans (List.prefix_append ..), hu⟩

/-- The first of the calls that wait is begun. -/
theorem concat {x : Saying} {rest : List Saying} (h : s.Timely rig acts begun)
    (hr : Run (step? rig) s acts t)
    (hall : begun.map Prod.snd ++ x :: rest = acts.filterMap Act.saying?) :
    s.Timely rig (acts ++ more) (begun ++ [(t.settings, x)]) := by
  intro k y hy
  rcases Nat.lt_or_ge k begun.length with hk | hk
  · rw [List.getElem?_append_left hk] at hy
    exact h.append k y hy
  · obtain ⟨rfl, rfl⟩ : k = begun.length ∧ (t.settings, x) = y := by
      have hlt := (List.getElem?_eq_some_iff.mp hy).1
      have hk' : k = begun.length := by
        simp only [List.length_append, List.length_singleton] at hlt
        omega
      subst hk'
      exact ⟨rfl, by simpa using hy⟩
    refine ⟨acts, t, List.prefix_append .., hr, rfl, ?_⟩
    rw [← hall, List.getElem?_append_right (by simp)]
    simp

end Timely

section Start

variable {device : Option String} {settings : VoiceSettings}

theorem cancelled_start (h : start rig device settings = .ok s) : s.Cancelled [] := by
  obtain ⟨-, rfl⟩ := start_eq h
  exact ⟨.inr (List.nil_suffix ..), fun _ => rfl, fun _ => stamped_start h, fun _ => rfl,
    fun _ => rfl, fun _ => ⟨⟨rfl, rfl⟩, rfl⟩⟩

/-- Where a cancellation has returned, or nothing has been done yet, nothing is under way. -/
theorem cancelled_of_return {acts : List Act} (h : start rig device settings = .ok s)
    (hr : Run (step? rig) s acts t) (hl : acts = [] ∨ ∃ early, acts = early ++ [.proceed])
    (hh : t.host = []) : t.Cancelled [] := by
  rcases hl with rfl | ⟨early, rfl⟩
  · obtain rfl := hr.eq_of_nil
    exact cancelled_start h
  · exact cancelled_of_run h hr hh

theorem flowing_start (h : start rig device settings = .ok s) : s.Flowing := by
  have hc := cancelled_start h
  obtain ⟨-, rfl⟩ := start_eq h
  exact hc.flowing rfl rfl

theorem isOpen_start (h : start rig device settings = .ok s) : s.Open := by
  obtain ⟨-, rfl⟩ := start_eq h
  constructor <;> simp [initial]

theorem scored_start (h : start rig device settings = .ok s) : s.Scored rig [] [] := by
  obtain ⟨-, rfl⟩ := start_eq h
  exact ⟨rfl, rfl, rfl⟩

end Start

end Session

end Speech

end Elocution
