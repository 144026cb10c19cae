import Elocution.Proofs.Output.Conversion

/-!
# Calls that wait for a resampler

A call waits in a resampler for the audio pushed before it and with it. It is let go by the first
push with which all of that audio has been in a pass, or else by the next flush; a reset that
comes before both drops it.
-/

namespace Elocution.Output.Resampler

variable {κ : Type} {source target : Nat} {r : Resampler κ} {uses : List (Use κ)} {u : Use κ}
  {i j : Nat}

/-- After `t` samples, leaves a call waiting that waits for `mark` of them. -/
def Use.keeps (mark t : Nat) : Use κ → Bool
  | .push _ _ => passed t < mark
  | _ => false

def Use.frees (mark t : Nat) : Use κ → Bool
  | .push _ _ => mark ≤ passed t
  | .flush => true
  | .reset => false

/-- The calls of a course of use, each with the number of its push. -/
def calls (uses : List (Use κ)) : List (Nat × κ) :=
  uses.zipIdx.filterMap fun (u, j) => u.call?.map (j, ·)

/-- The source samples up to a use, since the last flush or reset before it. -/
def mark (uses : List (Use κ)) (j : Nat) : Nat := input (uses.take (j + 1))

/-- The call of push `j` has been left waiting by all the uses. -/
def Waits (uses : List (Use κ)) (j : Nat) : Prop :=
  ∀ h (hh : h < uses.length), j ≤ h → uses[h].keeps (mark uses j) (mark uses h) = true

/-- The call of push `j` is let go by use `i`. -/
def Freed (uses : List (Use κ)) (j i : Nat) : Prop :=
  ∃ hi : i < uses.length, j ≤ i ∧ Waits (uses.take i) j ∧
    uses[i].frees (mark uses j) (mark uses i) = true

/-- The call of push `j` is still waiting at a reset, which is use `i`. -/
def Dropped (uses : List (Use κ)) (j i : Nat) : Prop :=
  j ≤ i ∧ Waits (uses.take i) j ∧ uses[i]? = some .reset

instance : Decidable (Waits uses j) :=
  inferInstanceAs (Decidable (∀ h (hh : h < uses.length), j ≤ h →
    uses[h].keeps (mark uses j) (mark uses h) = true))

instance : Decidable (Freed uses j i) :=
  inferInstanceAs (Decidable (∃ _ : i < uses.length, _))

/-! ## Courses that go on -/

theorem calls_concat (uses : List (Use κ)) (u : Use κ) :
    calls (uses ++ [u]) = calls uses ++ u.call?.toList.map (uses.length, ·) := by
  cases h : u.call? <;> simp [calls, List.zipIdx_append, h]

theorem lt_length_of_mem_calls {c : Nat × κ} (h : c ∈ calls uses) : c.1 < uses.length := by
  simp only [calls, List.mem_filterMap, Prod.exists] at h
  obtain ⟨u, j, hmem, hcall⟩ := h
  obtain ⟨k, -, rfl⟩ := Option.map_eq_some_iff.mp hcall
  have hlt := List.snd_lt_of_mem_zipIdx hmem
  simpa using hlt

theorem le_length_of_mem_calls_concat {c : Nat × κ} (h : c ∈ calls (uses ++ [u])) :
    c.1 ≤ uses.length := by
  have hlt := lt_length_of_mem_calls h
  rw [List.length_append, List.length_singleton] at hlt
  exact Nat.le_of_lt_succ hlt

theorem mark_take (h : j < i) : mark (uses.take i) j = mark uses j := by
  rw [mark, mark, List.take_take, Nat.min_eq_left h]

theorem mark_concat_of_lt (h : j < uses.length) : mark (uses ++ [u]) j = mark uses j := by
  rw [mark, mark, List.take_append_of_le_length h]

theorem mark_concat : mark (uses ++ [u]) uses.length = u.advance (input uses) := by
  rw [mark, List.take_of_length_le (by simp), input_concat]

theorem test_concat_of_lt (test : Nat → Nat → Use κ → Bool) (hi : i < uses.length) (hji : j ≤ i)
    (hi' : i < (uses ++ [u]).length) :
    test (mark (uses ++ [u]) j) (mark (uses ++ [u]) i) (uses ++ [u])[i] =
      test (mark uses j) (mark uses i) uses[i] := by
  rw [List.getElem_append_left hi, mark_concat_of_lt hi,
    mark_concat_of_lt (Nat.lt_of_le_of_lt hji hi)]

theorem waits_length (uses : List (Use κ)) : Waits uses uses.length :=
  fun _ hh hle => absurd hh (Nat.not_lt.mpr hle)

theorem waits_concat_iff (hj : j ≤ uses.length) :
    Waits (uses ++ [u]) j ↔ Waits uses j ∧
      u.keeps (mark (uses ++ [u]) j) (mark (uses ++ [u]) uses.length) = true := by
  constructor
  · intro h
    refine ⟨fun k hk hjk => ?_, ?_⟩
    · have hkeeps := h k (by simp; omega) hjk
      rwa [test_concat_of_lt Use.keeps hk hjk] at hkeeps
    · simpa using h uses.length (by simp) hj
  · rintro ⟨h, hkeeps⟩ k hk hjk
    obtain hlt | rfl := Nat.lt_succ_iff_lt_or_eq.mp (by simpa using hk)
    · rw [test_concat_of_lt Use.keeps hlt hjk]
      exact h k hlt hjk
    · simpa using hkeeps

theorem freed_concat_iff (hj : j ≤ uses.length) :
    Freed (uses ++ [u]) j uses.length ↔ Waits uses j ∧
      u.frees (mark (uses ++ [u]) j) (mark (uses ++ [u]) uses.length) = true := by
  simp [Freed, hj]

theorem freed_concat_of_lt (hi : i < uses.length) :
    Freed (uses ++ [u]) j i ↔ Freed uses j i := by
  constructor
  · rintro ⟨_, hji, hwaits, hfrees⟩
    rw [List.take_append_of_le_length hi.le] at hwaits
    rw [test_concat_of_lt Use.frees hi hji] at hfrees
    exact ⟨hi, hji, hwaits, hfrees⟩
  · rintro ⟨_, hji, hwaits, hfrees⟩
    refine ⟨by simp; omega, hji, ?_, ?_⟩
    · rwa [List.take_append_of_le_length hi.le]
    · rwa [test_concat_of_lt Use.frees hi hji]

/-! ## The end of waiting -/

/-- The call of push `j` is waiting at use `i`, which does not leave it waiting. -/
def Settled (uses : List (Use κ)) (j i : Nat) : Prop :=
  ∃ hi : i < uses.length, j ≤ i ∧ Waits (uses.take i) j ∧
    uses[i].keeps (mark uses j) (mark uses i) = false

theorem Use.not_keeps_iff (mark t : Nat) :
    u.keeps mark t = false ↔ u.frees mark t = true ∨ u = .reset := by
  cases u <;> simp [keeps, frees]

theorem settled_iff : Settled uses j i ↔ Freed uses j i ∨ Dropped uses j i := by
  constructor
  · rintro ⟨hi, hji, hwaits, hkeeps⟩
    rcases Use.not_keeps_iff .. |>.mp hkeeps with hfrees | hreset
    · exact .inl ⟨hi, hji, hwaits, hfrees⟩
    · exact .inr ⟨hji, hwaits, List.getElem?_eq_some_iff.mpr ⟨hi, hreset⟩⟩
  · rintro (⟨hi, hji, hwaits, hfrees⟩ | ⟨hji, hwaits, hreset⟩)
    · exact ⟨hi, hji, hwaits, Use.not_keeps_iff .. |>.mpr (.inl hfrees)⟩
    · obtain ⟨hi, hreset⟩ := List.getElem?_eq_some_iff.mp hreset
      exact ⟨hi, hji, hwaits, Use.not_keeps_iff .. |>.mpr (.inr hreset)⟩

theorem Settled.le {i' : Nat} (h : Settled uses j i) (h' : Settled uses j i') : i ≤ i' := by
  obtain ⟨hi, hji, hwaits, -⟩ := h
  obtain ⟨hi', hji', -, hkeeps⟩ := h'
  by_contra hlt
  rw [Nat.not_le] at hlt
  have hkept := hwaits i' (by rw [List.length_take]; omega) hji'
  rw [List.getElem_take, mark_take hlt, mark_take (Nat.lt_of_le_of_lt hji' hlt), hkeeps] at hkept
  exact Bool.false_ne_true hkept

theorem exists_settled (h : ¬ Waits uses j) : ∃ i, Settled uses j i := by
  induction uses using List.reverseRecOn with
  | nil => exact absurd (fun k hk => absurd hk (Nat.not_lt_zero k)) h
  | append_singleton uses u ih =>
    by_cases hwaits : Waits uses j
    · by_cases hj : j ≤ uses.length
      · have hkeeps := fun hk => h ((waits_concat_iff hj).mpr ⟨hwaits, hk⟩)
        refine ⟨uses.length, by simp, hj, by simpa using hwaits, ?_⟩
        simpa using hkeeps
      · apply absurd _ h
        intro k hk hjk
        rw [List.length_append, List.length_singleton] at hk
        omega
    · obtain ⟨i, hi, hji, hfirst, hkeeps⟩ := ih hwaits
      refine ⟨i, by simp; omega, hji, ?_, ?_⟩
      · rwa [List.take_append_of_le_length hi.le]
      · rwa [test_concat_of_lt Use.keeps hi hji]

/-- A call either is waiting still or has been let go or dropped, once. -/
theorem waits_or_existsUnique (uses : List (Use κ)) (j : Nat) :
    Waits uses j ∨ ∃! i, Freed uses j i ∨ Dropped uses j i := by
  by_cases hwaits : Waits uses j
  · exact .inl hwaits
  · obtain ⟨i, hi⟩ := exists_settled hwaits
    refine .inr ⟨i, settled_iff.mp hi, ?_⟩
    intro i' hi'
    have hi' := settled_iff.mpr hi'
    exact Nat.le_antisymm (hi'.le hi) (hi.le hi')

/-! ## What a resampler keeps waiting -/

def joined (count : Nat) (call : Option κ) (r : Resampler κ) : List (Nat × κ) :=
  r.waiting ++ call.toList.map (r.pending + count, ·)

theorem done_push (count : Nat) (call : Option κ) (r : Resampler κ) :
    (r.push count call).1.done =
      ((r.joined count call).filter (·.1 ≤ passed (r.pending + count))).map Prod.snd := rfl

theorem waiting_push (count : Nat) (call : Option κ) (r : Resampler κ) :
    (r.push count call).2.waiting =
      ((r.joined count call).filter (passed (r.pending + count) < ·.1)).map fun c =>
        (c.1 - passed (r.pending + count), c.2) := rfl

/-- The calls that wait are those left waiting by all uses, each behind what it needs. -/
structure Awaits (uses : List (Use κ)) (r : Resampler κ) : Prop where
  pending : r.pending = input uses - passed (input uses)
  waiting : r.waiting = ((calls uses).filter (Waits uses ·.1)).map fun c =>
    (mark uses c.1 - passed (input uses), c.2)

def freedAt (uses : List (Use κ)) (i : Nat) : List κ :=
  ((calls uses).filter (Freed uses ·.1 i)).map Prod.snd

theorem filter_calls_concat {among : Nat → Prop} [DecidablePred among] {test : Nat → Bool}
    (h : ∀ j ≤ uses.length, among j ↔ Waits uses j ∧ test j = true) :
    (calls (uses ++ [u])).filter (among ·.1) =
      ((calls (uses ++ [u])).filter (Waits uses ·.1)).filter (test ·.1) := by
  rw [List.filter_filter]
  apply List.filter_congr
  intro c hc
  rw [decide_eq_decide.mpr (h c.1 (le_length_of_mem_calls_concat hc)), Bool.decide_and,
    Bool.and_comm, Bool.decide_eq_true]

/-- The calls that wait when a use has brought its own. -/
theorem Awaits.join (h : Awaits uses r) (u : Use κ) :
    r.waiting ++ u.call?.toList.map (u.advance (input uses) - passed (input uses), ·) =
      ((calls (uses ++ [u])).filter (Waits uses ·.1)).map fun c =>
        (mark (uses ++ [u]) c.1 - passed (input uses), c.2) := by
  rw [calls_concat, List.filter_append, List.map_append, h.waiting]
  congr 1
  · apply List.map_congr_left
    intro c hc
    rw [mark_concat_of_lt (lt_length_of_mem_calls (List.mem_filter.mp hc).1)]
  · cases u.call? with
    | none => rfl
    | some call => simp [waits_length, mark_concat]

/-- Whether all of it has been in a pass is the same seen from the start and from the last pass. -/
theorem sub_passed_le_iff (t n m : Nat) :
    m - passed t ≤ passed (t - passed t + n) ↔ m ≤ passed (t + n) := by
  have := passed_add t n
  omega

theorem Awaits.push (h : Awaits uses r) (count : Nat) (call : Option κ) :
    (r.push count call).1.done = freedAt (uses ++ [.push count call]) uses.length ∧
      Awaits (uses ++ [.push count call]) (r.push count call).2 := by
  have hle := passed_le (input uses)
  have hpassed := passed_add (input uses) count
  have htotal : r.pending + count = input uses - passed (input uses) + count :=
    congrArg (· + count) h.pending
  have hinput : input (uses ++ [.push count call]) = input uses + count := input_concat ..
  have hmark : mark (uses ++ [.push count call]) uses.length = input uses + count := mark_concat
  -- What a call waits behind is counted from the last pass, its mark from the last flush.
  have hjoin := h.join (.push count call)
  simp only [Use.call?, Use.advance, Nat.sub_add_comm hle, ← htotal] at hjoin
  rw [← joined] at hjoin
  refine ⟨?_, ?_, ?_⟩
  · rw [done_push, hjoin, freedAt, filter_calls_concat fun j hj => freed_concat_iff hj,
      List.filter_map, List.map_map, hmark, htotal]
    congr 1
    apply List.filter_congr
    intro c _
    exact decide_eq_decide.mpr (sub_passed_le_iff ..)
  · rw [pending_push, hinput, htotal]
    omega
  · rw [waiting_push, hjoin, filter_calls_concat fun j hj => waits_concat_iff hj, List.filter_map,
      List.map_map, hinput, hmark, htotal]
    apply congrArg₂ List.map
    · funext c
      rw [Function.comp, Nat.sub_sub, ← hpassed]
    · apply List.filter_congr
      intro c _
      apply decide_eq_decide.mpr
      rw [← Nat.not_le, ← Nat.not_le]
      exact not_congr (sub_passed_le_iff ..)

theorem awaits_ofBlocks (b : BlockLengths) (hinput : input uses = 0)
    (hwaits : ∀ c ∈ calls uses, ¬ Waits uses c.1) : Awaits uses (ofBlocks b) := by
  refine ⟨by rw [hinput]; rfl, ?_⟩
  rw [List.filter_eq_nil_iff.mpr fun c hc => by simpa using hwaits c hc]
  rfl

theorem not_waits_concat (hkeeps : ∀ m t, u.keeps m t = false) :
    ∀ c ∈ calls (uses ++ [u]), ¬ Waits (uses ++ [u]) c.1 := by
  intro c hc h
  have hkept := ((waits_concat_iff (le_length_of_mem_calls_concat hc)).mp h).2
  rw [hkeeps] at hkept
  exact Bool.false_ne_true hkept

theorem Awaits.flush (h : Awaits uses r) :
    r.flush.1.done = freedAt (uses ++ [.flush]) uses.length ∧
      Awaits (uses ++ [.flush]) r.flush.2 := by
  constructor
  · have hjoin := h.join .flush
    simp only [Use.call?, Option.toList_none, List.map_nil, List.append_nil] at hjoin
    have hdone : r.flush.1.done = r.waiting.map Prod.snd := rfl
    rw [hdone, hjoin, freedAt, filter_calls_concat fun j hj => freed_concat_iff hj, List.map_map]
    congr 1
    symm
    apply List.filter_eq_self.mpr
    intro c _
    rfl
  · exact awaits_ofBlocks _ (input_concat ..) (not_waits_concat fun _ _ => rfl)

theorem freedAt_reset (uses : List (Use κ)) : freedAt (uses ++ [.reset]) uses.length = [] := by
  rw [freedAt, filter_calls_concat fun j hj => freed_concat_iff hj]
  rw [List.map_eq_nil_iff]
  apply List.filter_eq_nil_iff.mpr
  intro c _
  exact Bool.false_ne_true

theorem Awaits.take (h : Awaits uses r) (u : Use κ) :
    (r.take u).1.done = freedAt (uses ++ [u]) uses.length ∧
      Awaits (uses ++ [u]) (r.take u).2 := by
  cases u with
  | push count call => exact h.push count call
  | flush => exact h.flush
  | reset =>
    exact ⟨(freedAt_reset uses).symm,
      awaits_ofBlocks _ (input_concat ..) (not_waits_concat fun _ _ => rfl)⟩

theorem freedAt_concat_of_lt (hi : i < uses.length) : freedAt (uses ++ [u]) i = freedAt uses i := by
  have hown : (u.call?.toList.map (uses.length, ·)).filter
      (Freed (uses ++ [u]) ·.1 i) = [] := by
    apply List.filter_eq_nil_iff.mpr
    intro c hc
    obtain ⟨call, -, rfl⟩ := List.mem_map.mp hc
    rw [decide_eq_true_iff, freed_concat_of_lt hi]
    rintro ⟨-, hle, -⟩
    exact absurd hi (Nat.not_lt.mpr hle)
  rw [freedAt, freedAt, calls_concat, List.filter_append, hown, List.append_nil]
  simp only [freed_concat_of_lt hi]

theorem awaits_perform (b : BlockLengths) (uses : List (Use κ)) :
    (perform uses (ofBlocks b)).1.map (·.done) = (List.range uses.length).map (freedAt uses) ∧
      Awaits uses (perform uses (ofBlocks b)).2 := by
  induction uses using List.reverseRecOn with
  | nil => exact ⟨rfl, awaits_ofBlocks b rfl fun _ hc => absurd hc List.not_mem_nil⟩
  | append_singleton uses u ih =>
    obtain ⟨hgiven, hawaits⟩ := ih
    obtain ⟨hdone, hnext⟩ := hawaits.take u
    rw [perform_concat]
    refine ⟨?_, hnext⟩
    rw [List.map_append, hgiven, List.length_append, List.length_singleton, List.range_succ,
      List.map_append]
    congr 1
    · apply List.map_congr_left
      intro i hi
      exact (freedAt_concat_of_lt (List.mem_range.mp hi)).symm
    · exact congrArg (fun done => [done]) hdone

/-! ## The order of release -/

/-- Those that wait stand in the order of what they wait for, and none waits for more than is
there. -/
structure Orderly (r : Resampler κ) : Prop where
  sorted : r.waiting.Pairwise (·.1 ≤ ·.1)
  bounded : ∀ w ∈ r.waiting, w.1 ≤ r.pending

theorem filter_append_filter {waiting : List (Nat × κ)} (h : waiting.Pairwise (·.1 ≤ ·.1))
    (n : Nat) : waiting.filter (·.1 ≤ n) ++ waiting.filter (n < ·.1) = waiting := by
  induction waiting with
  | nil => rfl
  | cons w rest ih =>
    obtain ⟨hw, hrest⟩ := List.pairwise_cons.mp h
    by_cases hn : w.1 ≤ n
    · simp [hn, Nat.not_lt.mpr hn, ih hrest]
    -- All that stand behind one that waits on wait on.
    · have hlater : ∀ v ∈ rest, n < v.1 := fun v hv =>
        Nat.lt_of_lt_of_le (Nat.not_le.mp hn) (hw v hv)
      have hnone : rest.filter (·.1 ≤ n) = [] :=
        List.filter_eq_nil_iff.mpr fun v hv => by simpa using hlater v hv
      have hall : rest.filter (n < ·.1) = rest :=
        List.filter_eq_self.mpr fun v hv => by simpa using hlater v hv
      simp [hn, Nat.not_le.mp hn, hnone, hall]

theorem Orderly.push (h : Orderly r) (count : Nat) (call : Option κ) :
    (r.push count call).1.done ++ (r.push count call).2.waiting.map Prod.snd =
        r.waiting.map Prod.snd ++ call.toList ∧ Orderly (r.push count call).2 := by
  have hsorted : (r.joined count call).Pairwise (·.1 ≤ ·.1) := by
    refine List.pairwise_append.mpr ⟨h.sorted, by cases call <;> simp, fun w hw v hv => ?_⟩
    obtain ⟨k, -, rfl⟩ := List.mem_map.mp hv
    exact Nat.le_add_right_of_le (h.bounded w hw)
  have hbounded : ∀ w ∈ r.joined count call, w.1 ≤ r.pending + count := by
    intro w hw
    rcases List.mem_append.mp hw with hw | hw
    · exact Nat.le_add_right_of_le (h.bounded w hw)
    · obtain ⟨k, -, rfl⟩ := List.mem_map.mp hw
      exact Nat.le_refl _
  refine ⟨?_, ?_, ?_⟩
  · have hsame : (Prod.snd ∘ fun c : Nat × κ => (c.1 - passed (r.pending + count), c.2)) =
        Prod.snd := rfl
    rw [done_push, waiting_push, List.map_map, hsame, ← List.map_append,
      filter_append_filter hsorted, joined, List.map_append, List.map_map]
    simp [Function.comp_def]
  · refine List.pairwise_map.mpr ((hsorted.filter _).imp fun hle => ?_)
    exact Nat.sub_le_sub_right hle _
  · intro w hw
    obtain ⟨v, hv, rfl⟩ := List.mem_map.mp hw
    exact Nat.sub_le_sub_right (hbounded v (List.mem_filter.mp hv).1) _

theorem orderly_ofBlocks (b : BlockLengths) : Orderly (ofBlocks b : Resampler κ) :=
  ⟨.nil, fun _ hw => absurd hw List.not_mem_nil⟩

theorem Orderly.take (h : Orderly r) (u : Use κ) :
    ((r.take u).1.done ++ (r.take u).2.waiting.map Prod.snd).Sublist
        (r.waiting.map Prod.snd ++ u.call?.toList) ∧ Orderly (r.take u).2 := by
  cases u with
  | push count call =>
    obtain ⟨hsame, hnext⟩ := h.push count call
    exact ⟨hsame ▸ List.Sublist.refl _, hnext⟩
  | flush => exact ⟨List.Sublist.refl _, orderly_ofBlocks _⟩
  | reset => exact ⟨List.nil_sublist _, orderly_ofBlocks _⟩

theorem sublist_perform (b : BlockLengths) (uses : List (Use κ)) :
    ((perform uses (ofBlocks b)).1.flatMap (·.done) ++
        (perform uses (ofBlocks b)).2.waiting.map Prod.snd).Sublist ((calls uses).map Prod.snd) ∧
      Orderly (perform uses (ofBlocks b)).2 := by
  induction uses using List.reverseRecOn with
  | nil => exact ⟨List.Sublist.slnil, orderly_ofBlocks b⟩
  | append_singleton uses u ih =>
    obtain ⟨hkept, horderly⟩ := ih
    obtain ⟨hstep, hnext⟩ := horderly.take u
    have hown : (u.call?.toList.map (uses.length, ·)).map Prod.snd = u.call?.toList := by
      simp [Function.comp_def]
    rw [perform_concat, calls_concat, List.map_append, hown, List.flatMap_append,
      List.flatMap_singleton, List.append_assoc]
    refine ⟨(hstep.append_left _).trans ?_, hnext⟩
    rw [← List.append_assoc]
    exact hkept.append_right _

/-- Calls come out of a resampler in the order in which they went in, each at most once, and each
at its use: the first push with which all audio up to its own has been in a pass, or the flush
that comes before it. All others wait, or were dropped by a reset. Less than a pass is left. -/
theorem calls_released (hs : 0 < source) (ht : 0 < target) :
    ∃ r : Resampler κ, make source target = .ok r ∧ ∀ uses : List (Use κ),
      let (given, s) := perform uses r
      (given.flatMap (·.done)).Sublist ((calls uses).map Prod.snd) ∧
      given.map (·.done) = (List.range uses.length).map (freedAt uses) ∧
      s.waiting.map Prod.snd = ((calls uses).filter (Waits uses ·.1)).map Prod.snd ∧
      (∀ j, Waits uses j ∨ ∃! i, Freed uses j i ∨ Dropped uses j i) ∧
      s.pending < 256 := by
  refine ⟨ofBlocks (.ofRates source target), make_of_pos hs ht, ?_⟩
  intro uses
  obtain ⟨hgiven, hawaits⟩ := awaits_perform (.ofRates source target) uses
  obtain ⟨hkept, -⟩ := sublist_perform (.ofRates source target) uses
  refine ⟨(List.sublist_append_left ..).trans hkept, hgiven, ?_, waits_or_existsUnique uses, ?_⟩
  · rw [hawaits.waiting, List.map_map]
    rfl
  · rw [hawaits.pending]
    have hlt := lt_passed_add (input uses)
    have hle := passed_le (input uses)
    have hpass : passLength = 256 := rfl
    omega

/-- Calls let go by a push after their own, by their own and by flushes, and one that is dropped. -/
theorem calls_released_mixed :
    0 < 16000 ∧ 0 < 44100 ∧ ∃ r : Resampler Nat, make 16000 44100 = .ok r ∧
      let uses := [.push 300 (some 0), .push 212 (some 1), .push 3 (some 2), .push 0 (some 3),
        .flush, .push 0 (some 4), .push 9 (some 5), .reset, .flush]
      (perform uses r).1.map (·.done) = [[], [0, 1], [], [], [2, 3], [4], [], [], []] ∧
      Dropped uses 6 7 := by
  have hs : 0 < 16000 := by decide
  have ht : 0 < 44100 := by decide
  obtain ⟨r, hr, hreleased⟩ := @calls_released Nat 16000 44100 hs ht
  refine ⟨hs, ht, r, hr, ?_⟩
  intro uses
  have hgiven := (hreleased uses).2.1
  refine ⟨hgiven.trans ?_, ?_⟩
  · decide
  · exact ⟨by decide, by decide, rfl⟩

end Elocution.Output.Resampler
