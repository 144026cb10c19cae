import Elocution.Proofs.Session.Flow

/-!
# Looking anew

To the other parties it makes no difference where the player is. A player that is in the midst of a
look at the queue, or that waits for the time to look again, can be taken not to have looked yet.
-/

namespace Elocution.Speech

/-- A player that looks at the queue, or waits to look again, has not looked yet. -/
def Player.anew : Player → Player
  | .rendering stamp | .testing stamp | .polling stamp => .checking stamp
  | p => p

/-- The player is at the queue, or waits for more frames to be there. -/
def Player.isAtQueue : Player → Bool
  | .checking _ | .rendering _ | .testing _ | .polling _ => true
  | _ => false

namespace Session

variable {rig : Rig} {s t : Session} {a : Act} {stamp : Stamp}

/-- The session with its player at another point. -/
def turned (p : Player) (s : Session) : Session := { s with player := p }

section Turned

variable (p : Player) (s : Session)

theorem put_turned (q : Progress) (f : Frame) (tasks : List Task) :
    (s.turned p).put q f tasks = (s.put q f tasks).turned p := by
  unfold put
  rw [apply_ite (turned p)]
  rfl

theorem begin_turned (job : Job) : (s.turned p).begin job = (s.begin job).turned p := by
  unfold begin
  rw [apply_ite (turned p)]
  rfl

theorem carryOut_turned (q : Progress) (task : Task) (tasks : List Task) :
    (s.turned p).carryOut rig q task tasks = (s.carryOut rig q task tasks).turned p := by
  cases task with
  | block b =>
    simp only [carryOut]
    rw [apply_ite (turned p)]
    rfl
  | stream pause shaper frames =>
    simp only [carryOut]
    rcases shaper.next frames with ⟨_ | f, next, rest⟩
    · rfl
    · exact s.put_turned p ..
  | marker m first => exact s.put_turned p ..
  | frame f => exact s.put_turned p ..
  | kick =>
    simp only [carryOut]
    rw [apply_ite (turned p)]
    rfl
  | _ => rfl

theorem synthesize?_turned :
    (s.turned p).synthesize? rig = (s.synthesize? rig).map (turned p) := by
  unfold synthesize?
  cases hw : s.synthesizer with
  | idle =>
    simp only [turned, hw]
    split <;> rfl
  | fetched job =>
    simp only [turned, hw]
    exact congrArg some (s.begin_turned p job)
  | working q tasks =>
    cases tasks with
    | nil =>
      simp only [turned, hw]
      rfl
    | cons task tasks =>
      simp only [turned, hw]
      rw [apply_ite (Option.map (turned p))]
      exact if_congr Iff.rfl rfl (congrArg some (s.carryOut_turned p ..))
  | exited =>
    simp only [turned, hw]
    rfl

theorem call?_turned (c : HostCall) :
    (s.turned p).call? rig c = (s.call? rig c).map (turned p) := by
  unfold call?
  rw [apply_ite (Option.map (turned p))]
  refine if_congr Iff.rfl rfl (congrArg some ?_)
  cases c with
  | speak commands paged =>
    simp only [submit]
    rw [apply_ite (turned p)]
    rfl
  | terminate =>
    simp only
    rw [apply_ite (turned p)]
    rfl
  | _ => rfl

theorem makeCall_turned : (s.turned p).makeCall = s.makeCall.turned p := by
  unfold makeCall
  have hheld : (s.turned p).held = s.held := rfl
  rw [hheld]
  cases s.held <;> rfl

/-- To the other parties it makes no difference where the player is. -/
theorem step?_turned (ha : a ≠ .play) (he : a ≠ .expire) :
    (s.turned p).step? rig a = (s.step? rig a).map (turned p) := by
  cases a with
  | call c => exact s.call?_turned p c
  | proceed =>
    simp only [step?, proceed?]
    cases hh : s.host with
    | nil =>
      simp only [turned, hh]
      rfl
    | cons task rest =>
      simp only [turned, hh]
      cases task with
      | stopDevice =>
        rw [perform_stopDevice, perform_stopDevice]
        rfl
      | _ => rfl
  | synthesize => exact s.synthesize?_turned p
  | play => exact absurd rfl ha
  | expire => exact absurd rfl he
  | sound =>
    simp only [step?, sound?]
    rw [apply_ite (Option.map (turned p))]
    exact if_congr Iff.rfl rfl (congrArg some (s.makeCall_turned p))
  | callBack i =>
    simp only [step?, callBack?]
    rw [apply_ite (Option.map (turned p))]
    refine if_congr Iff.rfl rfl ?_
    rw [Option.map_map]
    rfl

end Turned

theorem turned_player (s : Session) : s.turned s.player = s := rfl

/-- The other parties leave the player where it is. -/
theorem player_step? (h : s.step? rig a = some t) (ha : a ≠ .play) (he : a ≠ .expire) :
    t.player = s.player := by
  have hmap : (s.turned s.player).step? rig a = (s.step? rig a).map (turned s.player) :=
    step?_turned s.player s ha he
  rw [turned_player, h] at hmap
  have heq : t = t.turned s.player := Option.some.inj hmap
  rw [heq]
  rfl

/-- What the other parties do, they do wherever the player is taken to be instead. -/
theorem step?_turned_map (h : s.step? rig a = some t) (ha : a ≠ .play) (he : a ≠ .expire)
    (move : Player → Player) :
    (s.turned (move s.player)).step? rig a = some (t.turned (move t.player)) := by
  rw [step?_turned _ s ha he, h, player_step? h ha he]
  rfl

/-- The session with its player about to look. -/
def anew (s : Session) : Session := s.turned s.player.anew

theorem anew_eq (hp : s.player.anew = .checking stamp) :
    s.anew = { s with player := .checking stamp } := by
  rw [anew, hp]
  rfl

theorem anew_of_eq (h : s.player.anew = s.player) : s.anew = s := by
  rw [anew, h]
  rfl

theorem anew_of_not_isAtQueue (h : s.player.isAtQueue = false) : s.anew = s := by
  apply anew_of_eq
  cases hp : s.player with
  | checking => simp [hp, Player.isAtQueue] at h
  | rendering => simp [hp, Player.isAtQueue] at h
  | testing => simp [hp, Player.isAtQueue] at h
  | polling => simp [hp, Player.isAtQueue] at h
  | _ => rfl

theorem anew_of_atRest (h : s.AtRest rig) : s.anew = s := by
  apply anew_of_not_isAtQueue
  obtain ⟨-, -, hplay, hexpire⟩ := h
  cases hp : s.player with
  | checking x => simp [play?, hp] at hplay
  | rendering x => simp [play?, hp] at hplay
  | testing x => simp [play?, hp] at hplay
  | polling x => simp [expire?, hp] at hexpire
  | _ => rfl

theorem anew_turned {p : Player} (h : p.anew = s.player.anew) : (s.turned p).anew = s.anew := by
  rw [anew, anew, ← h]
  rfl

theorem anew_anew (s : Session) : s.anew.anew = s.anew :=
  anew_turned (by cases s.player <;> rfl)

theorem isLooking_anew (s : Session) : s.anew.isLooking = false := by
  simp only [isLooking, anew, turned]
  cases s.player <;> rfl

theorem step?_anew (h : s.step? rig a = some t) (ha : a ≠ .play) (he : a ≠ .expire) :
    s.anew.step? rig a = some t.anew :=
  step?_turned_map h ha he Player.anew

theorem owed_anew (g : Stamp) (s : Session) : s.anew.owed g = s.owed g := by
  have hstamp : s.player.anew.stamp? = s.player.stamp? := by cases s.player <;> rfl
  simp only [owed, anew, turned, Player.owes, hstamp]

theorem isOpen_anew : s.anew.Open ↔ s.Open := by
  have hplayer : s.player.anew = .stopped ↔ s.player = .stopped := by
    cases s.player <;> simp [Player.anew]
  exact ⟨fun h => { h with player := fun hp => h.player (hplayer.mpr hp) },
    fun h => { h with player := fun hp => h.player (hplayer.mp hp) }⟩

theorem Flowing.anew (h : s.Flowing) : s.anew.Flowing := by
  apply h.turn
  · cases s.player <;> rfl
  · cases s.player <;> rfl
  · cases s.player <;> rfl
  · exact isLooking_anew s

/-- Where the player is not in the midst of a look, it may as well be taken to look anew. -/
theorem Flowing.of_anew (h : s.anew.Flowing) (hl : s.isLooking = false) : s.Flowing := by
  cases hp : s.player with
  | rendering x => simp [isLooking, hp] at hl
  | testing x => simp [isLooking, hp] at hl
  | polling x =>
    have hback : s = { s.anew with player := .polling x } := by rw [← hp]; rfl
    have hplayer : s.anew.player = .checking x := by rw [anew_eq (by rw [hp]; rfl)]
    rw [hback]
    exact h.turn (by rw [hplayer]; rfl) (by rw [hplayer]; rfl) (by rw [hplayer]; rfl) rfl
  | _ => rwa [anew_of_eq (by rw [hp]; rfl)] at h

/-- A player that is about to render for a job which is wanted may do so. -/
theorem Flowing.rendering (h : s.anew.Flowing) (hp : s.player = .rendering stamp)
    (hc : s.generation = stamp) : s.Flowing := by
  have hback : s = { s.anew with player := .rendering stamp } := by rw [← hp]; rfl
  have hplayer : s.anew.player = .checking stamp := by rw [anew_eq (by rw [hp]; rfl)]
  rw [hback]
  refine h.move ?_ ?_ ?_ (fun _ => ?_) (by rintro _ ⟨⟩)
  · rw [hplayer]; rfl
  · rw [hplayer]; rfl
  · rw [hplayer]; rfl
  · rw [← hc]; rfl

end Session

end Elocution.Speech
