import LayerLint.Dockerfile

/-!
# Stages cut the list of instructions

`Tiles stop index start stages`: the ranges of `stages` follow each other without a gap from
`start` to `stop`, and the stages are numbered from `index`. `Cuts index start stages is` says in
addition what each piece of `is` holds: one `FROM`, which stands first in every piece but the first.

The loop over the instructions patches the range of a stage after it has opened it. Its result can
be said without that (`ofFroms`): the loop from any position on ends the last stage at the next
`FROM` and adds the stages of the `FROM`s behind it (`closeLast_foldl_step`). So a list of
instructions with a `FROM` is cut by its stages (`ofInstructions_cuts`), and any list is tiled by
them (`ofInstructions_tiles`).
-/

namespace LayerLint

namespace Stage

/-! ## Ranges in a row -/

def Tiles (stop : Nat) : (index start : Nat) → List Stage → Prop
  | _, start, [] => start = stop
  | index, start, s :: rest =>
    s.index = index ∧ s.start = start ∧ s.start ≤ s.stop ∧ Tiles stop (index + 1) s.stop rest

section
variable {stop index start : Nat} {stages : List Stage}

theorem Tiles.le (h : Tiles stop index start stages) : start ≤ stop := by
  induction stages generalizing index start with
  | nil => exact Nat.le_of_eq h
  | cons s rest ih =>
    obtain ⟨-, rfl, hle, hrest⟩ := h
    exact Nat.le_trans hle (ih hrest)

theorem Tiles.bounds (h : Tiles stop index start stages) {s : Stage} (hs : s ∈ stages) :
    start ≤ s.start ∧ s.start ≤ s.stop ∧ s.stop ≤ stop := by
  induction stages generalizing index start with
  | nil => cases hs
  | cons t rest ih =>
    obtain ⟨-, rfl, hle, hrest⟩ := h
    rcases List.mem_cons.1 hs with rfl | hs
    · exact ⟨Nat.le_refl _, hle, hrest.le⟩
    · obtain ⟨h1, h2, h3⟩ := ih hrest hs
      exact ⟨Nat.le_trans hle h1, h2, h3⟩

theorem Tiles.index_eq (h : Tiles stop index start stages) {k : Nat} {s : Stage}
    (hs : stages[k]? = some s) : s.index = index + k := by
  induction stages generalizing index start k with
  | nil => cases hs
  | cons t rest ih =>
    obtain ⟨hi, -, -, hrest⟩ := h
    cases k with
    | zero =>
      cases hs
      exact hi
    | succ k =>
      rw [ih hrest hs]
      omega

theorem Tiles.head_start (h : Tiles stop index start stages) {s : Stage}
    (hs : stages.head? = some s) : s.start = start := by
  cases stages with
  | nil => cases hs
  | cons t rest =>
    cases hs
    exact h.2.1

theorem Tiles.adjacent (h : Tiles stop index start stages) {k : Nat} {s t : Stage}
    (hs : stages[k]? = some s) (ht : stages[k + 1]? = some t) : s.stop = t.start := by
  induction stages generalizing index start k with
  | nil => cases hs
  | cons u rest ih =>
    obtain ⟨-, -, -, hrest⟩ := h
    cases k with
    | zero =>
      cases hs
      rw [hrest.head_start (by simpa [List.head?_eq_getElem?] using ht)]
    | succ k => exact ih hrest hs ht

theorem Tiles.last_stop (h : Tiles stop index start stages) {s : Stage}
    (hs : stages.getLast? = some s) : s.stop = stop := by
  induction stages generalizing index start with
  | nil => cases hs
  | cons t rest ih =>
    obtain ⟨-, -, -, hrest⟩ := h
    cases rest with
    | nil =>
      cases hs
      exact hrest
    | cons u rest => exact ih hrest (by simpa [List.getLast?_cons_cons] using hs)

theorem Tiles.exists_contains (h : Tiles stop index start stages) {position : Nat}
    (hlow : start ≤ position) (hhigh : position < stop) :
    ∃ s ∈ stages, s.Contains position := by
  induction stages generalizing index start with
  | nil =>
    have hend : start = stop := h
    omega
  | cons s rest ih =>
    obtain ⟨-, rfl, -, hrest⟩ := h
    by_cases hin : position < s.stop
    · exact ⟨s, List.mem_cons_self .., hlow, hin⟩
    · obtain ⟨s', hs', hcontains⟩ := ih hrest (by omega)
      exact ⟨s', List.mem_cons_of_mem _ hs', hcontains⟩

/-- A position lies in one range only, so the search for it finds that range. -/
theorem Tiles.find?_contains (h : Tiles stop index start stages) {s : Stage} (hs : s ∈ stages)
    {position : Nat} (hp : s.Contains position) :
    stages.find? (fun s => s.Contains position) = some s := by
  induction stages generalizing index start with
  | nil => cases hs
  | cons t rest ih =>
    obtain ⟨-, -, -, hrest⟩ := h
    rcases List.mem_cons.1 hs with rfl | hs
    · exact List.find?_cons_of_pos (by simpa using hp)
    · have hlow := (hrest.bounds hs).1
      have hnot : ¬ t.Contains position := by
        unfold Contains at hp ⊢
        omega
      rw [List.find?_cons_of_neg (by simpa using hnot)]
      exact ih hrest hs

end

/-! ## Pieces with one `FROM` each -/

/-- `part` has exactly one `FROM`, behind the instructions `lead`. -/
structure Opened (part lead : List Instruction) (opener : Instruction) : Prop where
  opener_from : opener.directive = .from
  split : ∃ body, part = lead ++ opener :: body ∧ ∀ i ∈ lead ++ body, i.directive ≠ .from

inductive Cuts : (index start : Nat) → List Stage → List Instruction → Prop
  | nil (index start : Nat) : Cuts index start [] []
  | cons {index start : Nat} {stages : List Stage} {part lead rest : List Instruction}
      {opener : Instruction} : Opened part lead opener → (index ≠ 0 → lead = []) →
      Cuts (index + 1) (start + part.length) stages rest →
      Cuts index start (ofFrom index opener start (start + part.length) :: stages) (part ++ rest)

theorem Cuts.tiles {index start : Nat} {stages : List Stage} {is : List Instruction}
    (h : Cuts index start stages is) : Tiles (start + is.length) index start stages := by
  induction h with
  | nil => rfl
  | @cons index start stages part lead rest opener _ _ _ ih =>
    refine ⟨rfl, rfl, Nat.le_add_right .., ?_⟩
    rw [List.length_append, ← Nat.add_assoc]
    exact ih

theorem Opened.filter {part lead : List Instruction} {opener : Instruction}
    (h : Opened part lead opener) : part.filter (fun i => i.directive = .from) = [opener] := by
  obtain ⟨hf, body, rfl, hno⟩ := h
  have hnone : ∀ l : List Instruction, (∀ i ∈ l, i ∈ lead ++ body) →
      l.filter (fun i => i.directive = .from) = [] := fun l hl =>
    List.filter_eq_nil_iff.2 fun i hi => by simpa using hno i (hl i hi)
  rw [List.filter_append, hnone lead fun i hi => List.mem_append_left _ hi,
    List.filter_cons_of_pos (by simpa using hf),
    hnone body fun i hi => List.mem_append_right _ hi, List.nil_append]

theorem Cuts.length_eq {index start : Nat} {stages : List Stage} {is : List Instruction}
    (h : Cuts index start stages is) :
    stages.length = (is.filter fun i => i.directive = .from).length := by
  induction h with
  | nil => rfl
  | cons hopen _ _ ih =>
    rw [List.filter_append, List.length_append, hopen.filter, List.length_cons, ih,
      List.length_singleton, Nat.add_comm]

/-! ## The stages of a list of instructions -/

/-- The `FROM`s with their positions, counted from `k`. -/
def fromsAt (k : Nat) (is : List Instruction) : List (Nat × Instruction) :=
  ((is.zipIdx k).map fun (i, k) => (k, i)).filter fun (_, i) => i.directive = .from

theorem fromsAt_cons (k : Nat) (i : Instruction) (is : List Instruction) :
    fromsAt k (i :: is) =
      if i.directive = .from then (k, i) :: fromsAt (k + 1) is else fromsAt (k + 1) is := by
  simp [fromsAt, List.filter_cons]

theorem fromsAt_eq_nil {k : Nat} {is : List Instruction} :
    fromsAt k is = [] ↔ ∀ i ∈ is, i.directive ≠ .from := by
  induction is generalizing k with
  | nil => simp [fromsAt]
  | cons i is ih =>
    rw [fromsAt_cons]
    by_cases hi : i.directive = .from <;> simp [hi, ih]

theorem fromsAt_eq_cons {k p : Nat} {is : List Instruction} {opener : Instruction}
    {later : List (Nat × Instruction)} (h : fromsAt k is = (p, opener) :: later) :
    ∃ lead tail, is = lead ++ opener :: tail ∧ p = k + lead.length ∧ opener.directive = .from ∧
      (∀ i ∈ lead, i.directive ≠ .from) ∧ fromsAt (p + 1) tail = later := by
  induction is generalizing k with
  | nil => cases h
  | cons i is ih =>
    rw [fromsAt_cons] at h
    split at h
    · next hi =>
      cases h
      exact ⟨[], is, rfl, rfl, hi, by simp, rfl⟩
    · next hi =>
      obtain ⟨lead, tail, rfl, rfl, hf, hlead, hlater⟩ := ih h
      refine ⟨i :: lead, tail, rfl, by simp; omega, hf, ?_, hlater⟩
      intro j hj
      rcases List.mem_cons.1 hj with rfl | hj
      · exact hi
      · exact hlead j hj

def nextFrom (total : Nat) : List (Nat × Instruction) → Nat
  | [] => total
  | (position, _) :: _ => position

/-- The stages that the given `FROM`s open; `start` is where the first of them begins, and each
ends where the next `FROM` stands, the last one at `total`. -/
def ofFroms (total : Nat) : (index start : Nat) → List (Nat × Instruction) → List Stage
  | _, _, [] => []
  | index, start, (_, opener) :: rest =>
    ofFrom index opener start (nextFrom total rest) ::
      ofFroms total (index + 1) (nextFrom total rest) rest

/-- The stages opened by the `FROM`s of `is` cut `is`. The induction is on the `FROM`s; behind the
first of them a piece starts with its `FROM`, which `hfirst` carries along. -/
theorem ofFroms_cuts {total index start : Nat} {is : List Instruction}
    {openers : List (Nat × Instruction)} (hopen : fromsAt start is = openers)
    (htotal : total = start + is.length) (hne : openers ≠ [])
    (hfirst : index ≠ 0 → openers.head?.map Prod.fst = some start) :
    Cuts index start (ofFroms total index start openers) is := by
  induction openers generalizing index start is with
  | nil => exact absurd rfl hne
  | cons o later ih =>
    obtain ⟨p, opener⟩ := o
    obtain ⟨lead, tail, rfl, rfl, hf, hlead, hlater⟩ := fromsAt_eq_cons hopen
    have hnil : index ≠ 0 → lead = [] := fun h => by simpa using hfirst h
    cases later with
    | nil =>
      have hpart : Opened (lead ++ opener :: tail) lead opener := by
        refine ⟨hf, tail, rfl, fun i hi => ?_⟩
        rcases List.mem_append.1 hi with hi | hi
        · exact hlead i hi
        · exact fromsAt_eq_nil.1 hlater i hi
      have hcut : Cuts index start _ (lead ++ opener :: tail ++ []) :=
        .cons hpart hnil (.nil _ _)
      rw [List.append_nil] at hcut
      rw [htotal]
      exact hcut
    | cons next later =>
      obtain ⟨q, nextOpener⟩ := next
      obtain ⟨body, tail', rfl, rfl, hf', hbody, hlater'⟩ := fromsAt_eq_cons hlater
      have hpart : Opened (lead ++ opener :: body) lead opener := by
        refine ⟨hf, body, rfl, fun i hi => ?_⟩
        rcases List.mem_append.1 hi with hi | hi
        · exact hlead i hi
        · exact hbody i hi
      have hq : start + lead.length + 1 + body.length =
          start + (lead ++ opener :: body).length := by
        simp only [List.length_append, List.length_cons]
        omega
      have hrest : Cuts (index + 1) (start + (lead ++ opener :: body).length) _
          (nextOpener :: tail') :=
        ih (by rw [fromsAt_cons, if_pos hf', ← hq, hlater'])
          (by rw [htotal]; simp only [List.length_append, List.length_cons]; omega)
          (List.cons_ne_nil _ _) (fun _ => by rw [← hq]; rfl)
      have hcut := Cuts.cons hpart hnil hrest
      have happ : lead ++ opener :: (body ++ nextOpener :: tail') =
          lead ++ opener :: body ++ nextOpener :: tail' := by simp
      rw [happ, ofFroms]
      simp only [hq]
      exact hcut

/-! ## The loop over the instructions -/

theorem closeLast_append_singleton (stop : Nat) (stages : List Stage) (s : Stage) :
    closeLast stop (stages ++ [s]) = stages ++ [{ s with stop }] := by
  fun_induction closeLast stop stages with
  | case1 => rfl
  | case2 t => rfl
  | case3 t u rest ih => exact congrArg (t :: ·) ih

theorem length_closeLast (stop : Nat) (stages : List Stage) :
    (closeLast stop stages).length = stages.length := by
  fun_induction closeLast stop stages with
  | case1 => rfl
  | case2 t => rfl
  | case3 t u rest ih => exact congrArg (· + 1) ih

theorem closeLast_startFirst (stop : Nat) (stages : List Stage) :
    closeLast stop (startFirst stages) = startFirst (closeLast stop stages) := by
  fun_cases closeLast stop stages <;> rfl

/-- The loop from position `k` on ends the last of the stages so far at the next `FROM` and adds the
stages of the `FROM`s that it meets. -/
theorem closeLast_foldl_step (total k : Nat) (is : List Instruction) (stages : List Stage) :
    closeLast total ((is.zipIdx k).foldl step stages) =
      closeLast (nextFrom total (fromsAt k is)) stages ++
        ofFroms total stages.length (nextFrom total (fromsAt k is)) (fromsAt k is) := by
  induction is generalizing k stages with
  | nil => exact (List.append_nil _).symm
  | cons i is ih =>
    rw [List.zipIdx_cons, List.foldl_cons, ih, fromsAt_cons, step]
    split
    · rw [closeLast_append_singleton, List.length_append, length_closeLast, List.append_assoc]
      rfl
    · rfl

theorem startFirst_ofFroms (total start : Nat) (openers : List (Nat × Instruction)) :
    startFirst (ofFroms total 0 start openers) = ofFroms total 0 0 openers := by
  cases openers <;> rfl

theorem closeLast_opened (is : List Instruction) :
    closeLast is.length (is.zipIdx.foldl step []) =
      ofFroms is.length 0 (nextFrom is.length (fromsAt 0 is)) (fromsAt 0 is) :=
  closeLast_foldl_step is.length 0 is []

theorem ofInstructions_eq_ofFroms {is : List Instruction} (h : ∃ i ∈ is, i.directive = .from) :
    fromsAt 0 is ≠ [] ∧ ofInstructions is = ofFroms is.length 0 0 (fromsAt 0 is) := by
  have hne : fromsAt 0 is ≠ [] := by
    obtain ⟨i, hi, hf⟩ := h
    exact fun hnil => fromsAt_eq_nil.1 hnil i hi hf
  refine ⟨hne, ?_⟩
  have hopened := closeLast_opened is
  unfold ofInstructions
  split
  · next hnil =>
    obtain ⟨o, later, hcons⟩ := List.exists_cons_of_ne_nil hne
    rw [hnil, hcons] at hopened
    cases hopened
  · rw [closeLast_startFirst, hopened, startFirst_ofFroms]

theorem ofInstructions_cuts {is : List Instruction} (h : ∃ i ∈ is, i.directive = .from) :
    Cuts 0 0 (ofInstructions is) is := by
  obtain ⟨hne, hstages⟩ := ofInstructions_eq_ofFroms h
  rw [hstages]
  exact ofFroms_cuts rfl (by simp) hne (fun h => absurd rfl h)

theorem ofInstructions_of_no_from {is : List Instruction} (h : ∀ i ∈ is, i.directive ≠ .from) :
    ofInstructions is = [{ unopened is with stop := is.length }] := by
  have hopened := closeLast_opened is
  rw [fromsAt_eq_nil.2 h] at hopened
  have hnil : is.zipIdx.foldl step [] = [] := by
    rw [← List.length_eq_zero_iff, ← length_closeLast is.length, hopened]
    rfl
  unfold ofInstructions
  rw [hnil]
  rfl

theorem ofInstructions_tiles (is : List Instruction) :
    Tiles is.length 0 0 (ofInstructions is) := by
  by_cases h : ∃ i ∈ is, i.directive = .from
  · simpa using (ofInstructions_cuts h).tiles
  · have hnone : ∀ i ∈ is, i.directive ≠ .from := by simpa using h
    rw [ofInstructions_of_no_from hnone]
    exact ⟨rfl, rfl, Nat.zero_le _, rfl⟩

theorem ofInstructions_length (is : List Instruction) :
    (ofInstructions is).length = max 1 (is.filter fun i => i.directive = .from).length := by
  by_cases h : ∃ i ∈ is, i.directive = .from
  · rw [(ofInstructions_cuts h).length_eq]
    obtain ⟨i, hi, hf⟩ := h
    have : 0 < (is.filter fun i => i.directive = .from).length :=
      List.length_pos_of_mem (List.mem_filter.2 ⟨hi, by simpa using hf⟩)
    omega
  · have hno : ∀ i ∈ is, i.directive ≠ .from := by simpa using h
    have hfilter : is.filter (fun i => i.directive = .from) = [] :=
      List.filter_eq_nil_iff.2 fun i hi => by simpa using hno i hi
    rw [ofInstructions_of_no_from hno, hfilter]
    rfl

theorem ofInstructions_ne_nil (is : List Instruction) : ofInstructions is ≠ [] := by
  rw [← List.length_pos_iff, ofInstructions_length]
  omega

end Stage

/-! ## The instructions of a stage -/

namespace Dockerfile

open Stage

/-- A stage whose range is that of a piece of the list holds that piece. -/
theorem stageInstructions_eq {d : Dockerfile} {s : Stage} {before part rest : List Instruction}
    (hd : d.instructions = before ++ (part ++ rest)) (hstart : s.start = before.length)
    (hstop : s.stop = before.length + part.length) : d.stageInstructions s = part := by
  unfold stageInstructions
  rw [if_pos (by rw [hd, hstart, hstop]; simp), hd, hstart, hstop, List.drop_left,
    Nat.add_sub_cancel_left, List.take_left]

theorem stageInstructions_sublist (d : Dockerfile) (s : Stage) :
    (d.stageInstructions s).Sublist d.instructions := by
  unfold stageInstructions
  split
  · exact (List.take_sublist _ _).trans (List.drop_sublist _ _)
  · exact List.nil_sublist _

theorem flatMap_stageInstructions {d : Dockerfile} (before is : List Instruction)
    {index : Nat} {stages : List Stage} (hd : d.instructions = before ++ is)
    (h : Tiles d.instructions.length index before.length stages) :
    stages.flatMap d.stageInstructions = is := by
  induction stages generalizing index before is with
  | nil =>
    have hlen : before.length = d.instructions.length := h
    rw [hd, List.length_append] at hlen
    have hnil : is = [] := List.eq_nil_of_length_eq_zero (by omega)
    rw [hnil]
    rfl
  | cons s rest ih =>
    obtain ⟨-, hstart, hle, hrest⟩ := h
    have hstop := hrest.le
    rw [hd, List.length_append] at hstop
    have hsplit : is = is.take s.size ++ is.drop s.size := (List.take_append_drop _ _).symm
    have hsize : (is.take s.size).length = s.size := by
      rw [List.length_take]
      unfold size
      omega
    have hmid : s.stop = (before ++ is.take s.size).length := by
      rw [List.length_append, hsize]
      unfold size
      omega
    rw [List.flatMap_cons, stageInstructions_eq (hsplit ▸ hd) hstart
      (by rw [hmid, List.length_append]), ih (before ++ is.take s.size) _
      (by rw [List.append_assoc, ← hsplit, hd]) (hmid ▸ hrest), ← hsplit]

theorem flatMap_stageInstructions_ofInstructions (is : List Instruction) :
    (Stage.ofInstructions is).flatMap (ofInstructions is).stageInstructions = is :=
  flatMap_stageInstructions [] is rfl (Stage.ofInstructions_tiles is)

theorem exists_opened {d : Dockerfile} (before : List Instruction) {is : List Instruction}
    {index : Nat} {stages : List Stage} (h : Cuts index before.length stages is)
    (hd : d.instructions = before ++ is) {s : Stage} (hs : s ∈ stages) :
    ∃ lead opener, Opened (d.stageInstructions s) lead opener ∧ (s.index ≠ 0 → lead = []) ∧
      s = ofFrom s.index opener s.start s.stop := by
  generalize hn : before.length = start at h
  induction h generalizing before with
  | nil => cases hs
  | @cons index start stages part lead rest opener hopen hlead _ ih =>
    rcases List.mem_cons.1 hs with rfl | hs
    · rw [stageInstructions_eq hd hn.symm (by rw [hn]; rfl)]
      exact ⟨lead, opener, hopen, hlead, rfl⟩
    · exact ih (before ++ part) (by rw [hd, List.append_assoc]) hs
        (by rw [List.length_append, hn])

structure Partitioned (d : Dockerfile) : Prop where
  nonempty : d.stages ≠ []
  count : d.stages.length = max 1 (d.withDirective .from).length
  several : d.multiStage = true ↔ 1 < d.stages.length
  numbered : ∀ (k : Nat) (s : Stage), d.stages[k]? = some s → s.index = k
  first : ∀ s, d.stages.head? = some s → s.start = 0
  ordered : ∀ s ∈ d.stages, s.start ≤ s.stop
  adjacent : ∀ (k : Nat) (s s' : Stage), d.stages[k]? = some s → d.stages[k + 1]? = some s' →
    s.stop = s'.start
  last : ∀ s, d.stages.getLast? = some s → s.stop = d.instructions.length
  whole : d.stages.flatMap d.stageInstructions = d.instructions
  /-- One `FROM` a stage, on its start line; only the first stage has something before it. -/
  opened : d.withDirective .from ≠ [] → ∀ s ∈ d.stages, ∃ lead opener,
    Opened (d.stageInstructions s) lead opener ∧ opener.line = s.startLine ∧
      (s.index ≠ 0 → lead = [])

theorem parse_partitioned (t : Text) : Partitioned (parse t) := by
  generalize hd : parse t = d
  obtain ⟨is, rfl⟩ : ∃ is, d = ofInstructions is := ⟨_, hd.symm⟩
  have tiles : Tiles is.length 0 0 (Stage.ofInstructions is) := ofInstructions_tiles is
  exact
    { nonempty := ofInstructions_ne_nil is
      count := ofInstructions_length is
      several := decide_eq_true_iff
      numbered := fun k s hs => by rw [tiles.index_eq hs, Nat.zero_add]
      first := fun s hs => tiles.head_start hs
      ordered := fun s hs => (tiles.bounds hs).2.1
      adjacent := fun k s s' hs hs' => tiles.adjacent hs hs'
      last := fun s hs => tiles.last_stop hs
      whole := flatMap_stageInstructions_ofInstructions is
      opened := fun hfrom s hs => by
        have hex : ∃ i ∈ is, i.directive = .from := by
          obtain ⟨i, hi⟩ := List.exists_mem_of_ne_nil _ hfrom
          exact ⟨i, by simpa [withDirective, ofInstructions] using hi⟩
        obtain ⟨lead, opener, hopen, hlead, hstage⟩ :=
          exists_opened (d := ofInstructions is) [] (ofInstructions_cuts hex) rfl hs
        exact ⟨lead, opener, hopen, by rw [hstage]; rfl, hlead⟩ }

/-! ## The stage of a line -/

theorem getElem?_stageInstructions {d : Dockerfile} {s : Stage} {k : Nat} {i : Instruction}
    (h : (d.stageInstructions s)[k]? = some i) :
    d.instructions[s.start + k]? = some i ∧ s.Contains (s.start + k) := by
  unfold stageInstructions at h
  split at h
  · rw [List.getElem?_take] at h
    split at h
    · next hlt =>
      rw [List.getElem?_drop] at h
      exact ⟨h, Nat.le_add_right _ _, by omega⟩
    · cases h
  · cases h

theorem getElem?_of_mem_stageInstructions {d : Dockerfile} {s : Stage} {i : Instruction}
    (hi : i ∈ d.stageInstructions s) : ∃ p, s.Contains p ∧ d.instructions[p]? = some i := by
  obtain ⟨k, hk⟩ := List.mem_iff_getElem?.1 hi
  obtain ⟨hp, hcontains⟩ := getElem?_stageInstructions hk
  exact ⟨_, hcontains, hp⟩

/-- Where no two instructions share a line, the line of an instruction leads to its position. -/
theorem findIdx?_line {is : List Instruction} (hlines : is.Pairwise (·.line < ·.line)) {p : Nat}
    {i : Instruction} (hp : is[p]? = some i) : is.findIdx? (fun j => j.line = i.line) = some p := by
  obtain ⟨hlt, hi⟩ := List.getElem?_eq_some_iff.1 hp
  rw [List.findIdx?_eq_some_iff_getElem]
  refine ⟨hlt, by simp [hi], fun k hk => ?_⟩
  have := List.pairwise_iff_getElem.1 hlines k p (by omega) hlt hk
  rw [hi] at this
  simpa using Nat.ne_of_lt this

section
variable {d : Dockerfile} (htiles : Tiles d.instructions.length 0 0 d.stages)
  (hlines : d.instructions.Pairwise (·.line < ·.line)) {s : Stage} (hs : s ∈ d.stages)
  {i : Instruction}
include htiles hlines hs

theorem stageForLine_of_contains {p : Nat} (hp : d.instructions[p]? = some i)
    (hcontains : s.Contains p) : d.stageForLine i.line = some s := by
  unfold stageForLine
  rw [findIdx?_line hlines hp]
  exact htiles.find?_contains hs hcontains

/-- The line of an instruction leads to its stage. -/
theorem stageForLine_eq (hi : i ∈ d.stageInstructions s) : d.stageForLine i.line = some s := by
  obtain ⟨p, hcontains, hp⟩ := getElem?_of_mem_stageInstructions hi
  exact stageForLine_of_contains htiles hlines hs hp hcontains

end

end Dockerfile

end LayerLint
