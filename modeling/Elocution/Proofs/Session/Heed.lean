import Elocution.Proofs.Session.Following
import Elocution.Proofs.Session.Looking

/-!
# Looks that others break into

While the player looks at the queue the other parties may go on. If it then minds what it has found,
it makes no difference: the session gets to where it would have got with each look made in one go,
the player looking later, but for what the player does with its signals in between. Two players do
not mind. One ends a job that is still wanted because all is said to be queued by now; the other
renders for a job that is not wanted any more what has been queued since.
-/

namespace Elocution.Speech.Session

/-- The player is about to act on a look that is over: to end a job that is wanted because all is
said to be queued by now, or to render for a job that is not what has been queued since. -/
def isHeedless (s : Session) : Bool :=
  match s.player with
  | .testing stamp => s.isCurrent stamp && s.allQueued
  | .rendering stamp => !s.isCurrent stamp && !decide s.frames.IsClear
  | _ => false

/-- A step other than that of a heedless player. -/
def heedfulStep? (rig : Rig) (a : Act) (s : Session) : Option Session :=
  if a.isPlay && s.isHeedless then none else s.step? rig a

/-- What does not show of a player that is at the queue: it sifts its signals, or lets the device
play out what it has for a job that is not wanted any more. -/
inductive Unnoticed (s : Session) : Session → Prop where
  | sift {ds ss : List Signal} (ha : (ds ++ ss).filterMap Signal.announced? = s.announced)
      (hs : .shutdown ∉ ds ++ ss) : Unnoticed s { s with deferred := ds, signals := ss }
  | leave {stamp : Stamp} (hp : s.player = .checking stamp) (hc : s.generation ≠ stamp) :
    Unnoticed s { s with player := .draining stamp }

variable {rig : Rig} {s t : Session} {a : Act} {stamp : Stamp}

theorem step?_of_heedfulStep? (h : s.heedfulStep? rig a = some t) : s.step? rig a = some t := by
  unfold heedfulStep? at h
  split at h
  · cases h
  · exact h

theorem heedfulStep?_of_not_isHeedless (h : s.isHeedless = false) :
    s.heedfulStep? rig a = s.step? rig a := by
  simp [heedfulStep?, h]

theorem not_isHeedless (h : s.heedfulStep? rig .play = some t) : s.isHeedless = false := by
  by_contra hh
  simp [heedfulStep?, Act.isPlay, hh] at h

/-- A player that is away from the queue does not get into the midst of a look. -/
theorem anew_of_play? (h : s.play? rig = some t) (hp : s.player.isAtQueue = false) :
    t.anew = t := by
  apply anew_of_eq
  cases play?_cases h with
  | @feed stamp chunk => cases chunk.finished <;> rfl
  | @idle stamp failed => cases failed <;> rfl
  | disregard hw => rw [hw]; rfl
  | hear hh =>
    cases hq : s.player <;> simp_all [Player.hears, Player.anew]
  | _ => first | rfl | simp_all [Player.isAtQueue]

/-- The other parties do the same wherever the player is at the queue. -/
theorem wholeStep?_anew (h : s.step? rig a = some t) (ha : a ≠ .play) (he : a ≠ .expire) :
    s.anew.wholeStep? rig a = some t.anew := by
  rw [wholeStep?_of_not_isLooking s.isLooking_anew]
  exact step?_anew h ha he

/-- A look for a job that is not wanted finds nothing, if the player minds what it has found. -/
theorem render_of_stale (h : s.heedfulStep? rig .play = some t) (hp : s.player = .rendering stamp)
    (hc : s.generation ≠ stamp) : t = { s with player := .testing stamp } := by
  have hheed := not_isHeedless h
  have hclear : s.frames.IsClear := by
    simpa [isHeedless, hp, isCurrent, hc] using hheed
  have hplay : s.play? rig = some t := step?_of_heedfulStep? h
  have hnone : ({} : Frame.Chunk).isEmpty = true ∧ ({} : Frame.Chunk).finished = false := ⟨rfl, rfl⟩
  simpa [play?, hp, render, Frame.Queue.render_of_isClear hclear, hnone] using hplay.symm

/-- A player that is about to render for a job which is wanted has got there from where it looks
anew. -/
theorem Flowing.play?_anew (h : s.anew.Flowing) (hp : s.player = .rendering stamp)
    (hc : s.generation = stamp) : s.anew.play? rig = some s := by
  have hplayer : s.anew.player = .checking stamp := by rw [anew_eq (by rw [hp]; rfl)]
  have htaken : s.anew.player.taken? = some s.generation := by rw [hplayer, hc]; rfl
  have hlive : s.anew.isLive stamp = true := isLive_iff.mpr ⟨h.audible htaken, hc⟩
  simp only [play?, hplayer, hlive, if_true]
  rw [← hp]
  rfl

/-- A look for a job that is wanted can be made in one go. -/
theorem Flowing.look (h : s.anew.Flowing) (ho : s.Open) (hp : s.player = .rendering stamp)
    (hc : s.generation = stamp) (hst : s.play? rig = some t) : s.anew.Reaches rig t.anew := by
  have ht : t.Flowing := (h.rendering hp hc).playback ho (play?_cases hst)
  have hreach : s.anew.Reaches rig t := (Reaches.of_play (h.play?_anew hp hc)).trans (.of_play hst)
  cases play?_cases hst with
  | render => exact hreach
  | renderEnd => exact hreach
  | @renderNone x hx =>
    -- What it awaits then is the time to look again.
    have hwait : play? rig { s with
        frames := (s.frames.render rig.chunk).2, player := .testing x } = some { s with
        frames := (s.frames.render rig.chunk).2, player := .polling x } := by
      have hq : s.allQueued = false := ht.not_allQueued rfl
      simp [play?, hq]
    exact (hreach.trans (.of_play hwait)).trans (reaches_of_expire rfl)
  | _ => simp_all [Player.hears]

/-- What the player does at the queue, if it minds what it has found, is to look, to be done with a
job that is not wanted, or does not show. -/
theorem Flowing.atQueue (h : s.anew.Flowing) (ho : s.Open) (hst : s.heedfulStep? rig .play = some t)
    (hq : s.player.isAtQueue = true) : Unnoticed s.anew t.anew ∨ s.anew.Reaches rig t.anew := by
  have hplay : s.play? rig = some t := step?_of_heedfulStep? hst
  have hstay (he : t.anew = s.anew) : s.anew.Reaches rig t.anew := he ▸ .refl _
  cases hp : s.player with
  | checking x =>
    have hanew : s.anew = s := anew_of_eq (by rw [hp]; rfl)
    by_cases hl : s.isLive x = true
    · have ht : t = { s with player := .rendering x } := by simpa [play?, hp, hl] using hplay.symm
      subst ht
      exact .inr (hstay (anew_turned (by rw [hp]; rfl)))
    · have ht : t = { s with player := .waiting } := by simpa [play?, hp, hl] using hplay.symm
      subst ht
      rw [hanew]
      exact .inr (.of_play hplay)
  | rendering x =>
    by_cases hc : s.generation = x
    · exact .inr (h.look ho hp hc hplay)
    · obtain rfl := render_of_stale hst hp hc
      exact .inr (hstay (anew_turned (by rw [hp]; rfl)))
  | testing x =>
    by_cases hq : s.allQueued = true
    · have ht : t = { s with player := .draining x } := by simpa [play?, hp, hq] using hplay.symm
      have hc : s.generation ≠ x := by
        have hheed := not_isHeedless hst
        simpa [isHeedless, hp, hq, isCurrent] using hheed
      subst ht
      exact .inl (.leave (by rw [anew_eq (by rw [hp]; rfl)]) hc)
    · have ht : t = { s with player := .polling x } := by simpa [play?, hp, hq] using hplay.symm
      subst ht
      exact .inr (hstay (anew_turned (by rw [hp]; rfl)))
  | polling x =>
    obtain ⟨ds, ss, rfl, hds⟩ := checking_of_polling ho hp hplay
    have ht := (ho.playback (play?_cases hplay)).signals
    rw [anew_eq (s := s) (by rw [hp]; rfl)]
    exact .inl (.sift hds ht)
  | _ => simp [hp, Player.isAtQueue] at hq

/-- A step that is made heedfully gets to where steps get that do not break into a look, if it does
not go unnoticed. -/
theorem Flowing.heedful_cases (h : s.anew.Flowing) (ho : s.Open)
    (hst : s.heedfulStep? rig a = some t) :
    a.call? = none ∧ Unnoticed s.anew t.anew ∨
      ∃ acts, Run (wholeStep? rig) s.anew acts t.anew ∧
        acts.filterMap Act.call? = a.call?.toList := by
  have hreaches (hcall : a.call? = none) (hr : s.anew.Reaches rig t.anew) :
      ∃ acts, Run (wholeStep? rig) s.anew acts t.anew ∧
        acts.filterMap Act.call? = a.call?.toList := by
    obtain ⟨acts, hrun, hacts⟩ := hr
    exact ⟨acts, hrun, by rw [filterMap_call?_of_isPlayback hacts, hcall]; rfl⟩
  have hstep := step?_of_heedfulStep? hst
  by_cases hplay : a = .play
  · subst hplay
    cases hq : s.player.isAtQueue with
    | false =>
      rw [anew_of_not_isAtQueue hq, anew_of_play? hstep hq] at hreaches ⊢
      exact .inr (hreaches rfl (.of_play hstep))
    | true => exact (h.atQueue ho hst hq).imp (fun hu => ⟨rfl, hu⟩) (hreaches rfl)
  by_cases hexpire : a = .expire
  · subst hexpire
    cases step?_cases hstep with
    | @expire x hp =>
      have hsame : Session.anew { s with player := .checking x } = s.anew :=
        anew_turned (by rw [hp]; rfl)
      rw [hsame] at hreaches ⊢
      exact .inr (hreaches rfl (.refl _))
  · exact .inr ⟨[a], .head (wholeStep?_anew hstep hplay hexpire), filterMap_call?_singleton a⟩

/-- A session in which nobody breaks into a look is heedful. -/
theorem Flowing.not_isHeedless (h : s.Flowing) : s.isHeedless = false := by
  have hlook := h.looking
  cases hp : s.player with
  | testing x =>
    simp [isHeedless, hp, h.not_allQueued hp]
  | rendering x =>
    rw [hp] at hlook
    obtain rfl := Option.some.inj (hlook (by simp [isLooking, hp]))
    simp [isHeedless, hp, isCurrent]
  | _ => simp [isHeedless, hp]

theorem countP_isPlayFrom (g : Stamp) (signals : List Signal) :
    signals.countP (Signal.isPlayFrom g) =
      (signals.filterMap Signal.announced?).countP (g ≤ ·) := by
  rw [List.countP_filterMap]
  refine List.countP_congr fun x _ => ?_
  cases x <;> simp [Signal.isPlayFrom, Signal.announced?]

theorem countP_saying? (acts : List Act) :
    acts.countP (·.saying?.isSome) =
      (acts.filterMap Act.call?).countP fun c => (Act.call c).saying?.isSome := by
  rw [List.countP_filterMap]
  refine List.countP_congr fun a _ => ?_
  cases a <;> simp [Act.call?, Act.saying?]

namespace Unnoticed

variable {same : Prop} {r₀ f₀ r f : Session} {past : List Request}

theorem unbroken (h : Unnoticed s t) (hs : s.Unbroken) : t.Unbroken := by
  obtain ⟨hf, ho, hh⟩ := hs
  cases h with
  | @sift ds ss ha hshut =>
    have hmem (y : Stamp) (hy : .play y ∈ ds ++ ss) : .play y ∈ s.deferred ++ s.signals :=
      mem_announced.mp (ha ▸ List.mem_filterMap.mpr ⟨_, hy, rfl⟩)
    refine ⟨hf.resort hmem ?_, { ho with signals := hshut }, { hh with }⟩
    rw [countP_isPlayFrom, ha, announced, ← countP_isPlayFrom]
  | @leave stamp hp hc =>
    have hpast : (Player.draining stamp).past s.generation = s.player.past s.generation := by
      have hlt : stamp < s.generation :=
        Nat.lt_of_le_of_ne (hf.dated.player stamp (by rw [hp]; rfl)) (Ne.symm hc)
      simp [hp, Player.past, hlt]
    refine ⟨hf.turn (by rw [hp]; rfl) hpast (by rw [hp]; rfl) rfl,
      { ho with player := by rintro ⟨⟩ }, hh.move rfl rfl rfl fun ht => ?_⟩
    rw [hp] at ht
    exact absurd (Option.some.inj ht).symm hc

theorem generation_eq (h : Unnoticed s t) : t.generation = s.generation := by
  cases h <;> rfl

theorem done_add_owed (h : Unnoticed s t) (g : Stamp) :
    t.done + t.owed g = s.done + s.owed g := by
  cases h with
  | sift ha =>
    refine done_owed_of_stay rfl rfl rfl ?_ rfl
    rw [countP_isPlayFrom, ha, announced, ← countP_isPlayFrom]
  | leave hp => exact done_owed_of_stay rfl rfl rfl rfl (by rw [hp]; rfl)

/-- What does not show in the later session need not be done in the other. -/
theorem alike (h : Unnoticed r t) (hl : Alike same r₀ f₀ past r f) (hf : f.Flowing)
    (hz : f.generation = 0) : Alike same r₀ f₀ past t f := by
  cases h with
  | sift ha =>
    have hannounced := hl.announced
    rw [← ha] at hannounced
    exact { hl with announced := hannounced }
  | @leave stamp hp hc =>
    have hplayer := hl.player
    rw [hp] at hplayer
    generalize hpf : f.player = p at hplayer
    cases hplayer with
    | late hs hx =>
      refine { hl with player := ?_ }
      rw [hpf]
      exact .late hs hx (by simp) (by simp)
    | checking y =>
      have hy : f.generation = y := hf.stamp_of_zero hz (by rw [hpf]; rfl)
      exact absurd (hy ▸ hl.generation) hc

theorem follows (h : Unnoticed r t) (hl : Alike same r₀ f₀ past r f) (hf : f.Flowing)
    (hz : f.generation = 0) : Follows rig same r₀ f₀ past r f [] t := by
  have hsynthesizer : t.synthesizer = r.synthesizer := by cases h <;> rfl
  refine ⟨[], [], f, fun hin => ⟨rfl, ?_⟩, fun _ _ => .refl f, rfl, ?_⟩
  · rw [InStep, hsynthesizer]
    exact hin
  · rw [List.append_nil]
    exact h.alike hl hf hz

end Unnoticed

namespace Run

variable {acts : List Act}

theorem of_heedful (h : Run (heedfulStep? rig) s acts t) : Run (step? rig) s acts t :=
  h.mono fun _ _ _ => step?_of_heedfulStep?

/-- As long as nothing is cancelled jobs flow in a heedful run too, if each look is taken to be made
later, and each job is done or owed. -/
theorem heeded (h : Run (heedfulStep? rig) s acts t) (hs : s.anew.Unbroken) (hn : rig.NeverEnds)
    (hless : rig.Faultless) (ha : ∀ a ∈ acts, a.isCancel = false) :
    t.anew.Unbroken ∧ t.generation = s.generation ∧
      t.done + t.owed s.generation =
        s.done + s.owed s.generation + acts.countP (·.saying?.isSome) := by
  induction h with
  | refl => exact ⟨hs, rfl, rfl⟩
  | @tail t u acts a hrun hst ih =>
    obtain ⟨ht, hg, hcount⟩ := ih fun b hb => ha b (by simp [hb])
    have hone : [a].countP (·.saying?.isSome) =
        a.call?.toList.countP fun c => (Act.call c).saying?.isSome := by
      rw [countP_saying?, filterMap_call?_singleton]
    rw [← hg] at hcount ⊢
    rw [List.countP_append, hone, ← owed_anew]
    rw [← owed_anew] at hcount
    rcases ht.flowing.heedful_cases (isOpen_anew.mp ht.lasts) hst with
      ⟨hcall, hu⟩ | ⟨more, hmore, hcalls⟩
    · have hsame : u.done + u.anew.owed t.generation = t.done + t.anew.owed t.generation :=
        hu.done_add_owed t.generation
      refine ⟨hu.unbroken ht, hu.generation_eq, ?_⟩
      rw [hsame, hcount, hcall]
      rfl
    · have hcancel : ∀ b ∈ more, b.isCancel = false :=
        isCancel_of_filterMap (hcalls.trans (filterMap_call?_singleton a).symm)
          (by simpa using ha a (by simp))
      obtain ⟨-, hgen, hmade⟩ := hmore.flowing ht.flowing ht.lasts hn hcancel
      have hsame : u.done + u.anew.owed t.generation =
          t.done + t.anew.owed t.generation + more.countP (·.saying?.isSome) := hmade
      refine ⟨(ht.run hn hless hmore hcancel).1, hgen, ?_⟩
      rw [hsame, hcount, ← hcalls, ← countP_saying?, Nat.add_assoc]

/-- Where jobs flow a run in which nobody breaks into a look is heedful. -/
theorem heedful_of_whole (h : Run (wholeStep? rig) s acts t) (hs : s.Flowing) (ho : s.Open)
    (hn : rig.NeverEnds) (ha : ∀ a ∈ acts, a.isCancel = false) :
    Run (heedfulStep? rig) s acts t :=
  h.steps_of_whole hs ho hn ha fun hflow hst =>
    (heedfulStep?_of_not_isHeedless hflow.not_isHeedless).trans hst

end Run

variable {same : Prop} {r₀ f₀ r f : Session} {past : List Request} {acts : List Act}

/-- Whatever the later session does heedfully, the other can do as well, and that without anybody
breaking into a look. -/
theorem Alike.follows_heedful (h : Alike same r₀ f₀ past r.anew f) (hn : rig.NeverEnds)
    (hless : rig.Faultless) (hr : r.anew.Unbroken) (hf : f.Unbroken) (hz : f.generation = 0)
    (hrun : Run (heedfulStep? rig) r acts t) (ha : ∀ a ∈ acts, a.isCancel = false) :
    Follows rig same r₀ f₀ past r.anew f (acts.filterMap Act.call?) t.anew := by
  induction hrun with
  | refl => exact h.follows_refl
  | @tail t u acts a hrun hst ih =>
    have hacts (b : Act) (hb : b ∈ acts) : b.isCancel = false := ha b (by simp [hb])
    obtain ⟨ht, -⟩ := hrun.heeded hr hn hless hacts
    rw [List.filterMap_append, filterMap_call?_singleton]
    refine (ih hacts).trans hn hless hf hz hacts fun past' f' hf' hz' hlike => ?_
    rcases ht.flowing.heedful_cases (isOpen_anew.mp ht.lasts) hst with
      ⟨hcall, hu⟩ | ⟨more, hmore, hcalls⟩
    · rw [hcall]
      exact hu.follows hlike hf'.flowing hz'
    · rw [← hcalls]
      refine hlike.follows hn hless ht hf' hz' hmore ?_
      exact isCancel_of_filterMap (hcalls.trans (filterMap_call?_singleton a).symm)
        (by simpa using ha a (by simp))

end Elocution.Speech.Session
