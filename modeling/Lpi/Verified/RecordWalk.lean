import Mathlib.Data.List.Basic

/-!
# Walking over records of different sizes

A buffer that holds records one after the other is read by a loop

    for (p = 0; p < size; p += stride at p) body at p

where the size of a record is found in the buffer itself.  `loop` is this
loop, with the state of the body passed on; it may run for ever, so it gets
the number of tests it may make.

If the records are encoded in such a way that the stride at the beginning of
an encoding is its length (`Delimits`), the loop executes its body once for
each record, at the place where it begins, and ends (`loop_records`),
whatever the buffer holds behind the records.  `placed` lists these places;
at each of them the buffer continues with the encoding (`drop_placed`), which
lies inside the valid part (`placed_le`).
-/

namespace Lpi.Verified.RecordWalk

variable {α σ ρ : Type*}

/-- The loop from `p` on, for at most as many tests of its condition. -/
def loop (stride : List α → Nat) (body : σ → Nat → σ) (buffer : List α) (size : Nat) :
    Nat → Nat → σ → Option σ
  | 0, _, _ => none
  | fuel + 1, p, s =>
      if p < size then
        loop stride body buffer size fuel (p + stride (buffer.drop p)) (body s p)
      else some s

/-- At the beginning of an encoding, the stride is its length. -/
structure Delimits (stride : List α → Nat) (encode : ρ → List α) : Prop where
  stride_eq : ∀ r rest, stride (encode r ++ rest) = (encode r).length
  pos : ∀ r, 0 < (encode r).length

/-- The records with their places, the first one being at `p`. -/
def placed (encode : ρ → List α) : Nat → List ρ → List (Nat × ρ)
  | _, [] => []
  | p, r :: rs => (p, r) :: placed encode (p + (encode r).length) rs

variable {stride : List α → Nat} {encode : ρ → List α} {body : σ → Nat → σ}

theorem map_snd_placed (p : Nat) (rs : List ρ) :
    (placed encode p rs).map Prod.snd = rs := by
  induction rs generalizing p with
  | nil => rfl
  | cons r rs ih => rw [placed, List.map_cons, ih]

theorem mem_of_mem_placed {q : Nat} {rs : List ρ} {p : Nat} {r : ρ}
    (h : (p, r) ∈ placed encode q rs) : r ∈ rs := by
  rw [← map_snd_placed q rs]
  exact List.mem_map_of_mem h

/-- At each place there is the encoding of the record. -/
theorem drop_placed {pre rest : List α} {rs : List ρ} {p : Nat} {r : ρ}
    (h : (p, r) ∈ placed encode pre.length rs) :
    ∃ more, (pre ++ (rs.flatMap encode ++ rest)).drop p = encode r ++ more := by
  induction rs generalizing pre with
  | nil => simp [placed] at h
  | cons r' rs ih =>
      rw [placed, List.mem_cons, Prod.mk.injEq] at h
      rcases h with ⟨rfl, rfl⟩ | h
      · exact ⟨rs.flatMap encode ++ rest, by simp⟩
      · have hpre : pre.length + (encode r').length = (pre ++ encode r').length := by
          simp
        rw [hpre] at h
        obtain ⟨more, hmore⟩ := ih h
        exact ⟨more, by simpa using hmore⟩

theorem drop_placed_zero {rs : List ρ} (rest : List α) {p : Nat} {r : ρ}
    (h : (p, r) ∈ placed encode 0 rs) :
    ∃ more, (rs.flatMap encode ++ rest).drop p = encode r ++ more := by
  rw [← List.nil_append (rs.flatMap encode ++ rest)]
  exact drop_placed h

/-- Each encoding lies inside the valid part of the buffer. -/
theorem placed_le {q : Nat} {rs : List ρ} {p : Nat} {r : ρ}
    (h : (p, r) ∈ placed encode q rs) :
    p + (encode r).length ≤ q + (rs.flatMap encode).length := by
  induction rs generalizing q with
  | nil => simp [placed] at h
  | cons r' rs ih =>
      rw [placed, List.mem_cons, Prod.mk.injEq] at h
      rw [List.flatMap_cons, List.length_append]
      rcases h with ⟨rfl, rfl⟩ | h
      · omega
      · have hle := ih h
        omega

/-- The loop from the beginning of a record on. -/
theorem loop_from (hdelim : Delimits stride encode) (rest : List α) (rs : List ρ)
    (pre : List α) (s : σ) {fuel : Nat} (hfuel : rs.length < fuel) :
    loop stride body (pre ++ (rs.flatMap encode ++ rest))
        (pre.length + (rs.flatMap encode).length) fuel pre.length s =
      some ((placed encode pre.length rs).foldl (fun s pr => body s pr.1) s) := by
  induction rs generalizing pre s fuel with
  | nil =>
      cases fuel with
      | zero => exact absurd hfuel (Nat.not_lt_zero _)
      | succ fuel => simp [loop, placed]
  | cons r rs ih =>
      cases fuel with
      | zero => exact absurd hfuel (Nat.not_lt_zero _)
      | succ fuel =>
          have hpos := hdelim.pos r
          have hinside : pre.length <
              pre.length + ((r :: rs).flatMap encode).length := by
            rw [List.flatMap_cons, List.length_append]
            omega
          have hstride : stride ((pre ++ ((r :: rs).flatMap encode ++ rest)).drop
              pre.length) = (encode r).length := by
            rw [List.drop_left', List.flatMap_cons, List.append_assoc,
              hdelim.stride_eq]
            rfl
          have hnext := ih (pre ++ encode r) (body s pre.length)
            (Nat.lt_of_succ_lt_succ hfuel)
          rw [loop, if_pos hinside, hstride, placed, List.foldl_cons]
          simpa [Nat.add_assoc] using hnext

/-- The loop over a buffer that begins with the records. -/
theorem loop_records (hdelim : Delimits stride encode) (rs : List ρ) (rest : List α)
    (s : σ) {fuel : Nat} (hfuel : rs.length < fuel) :
    loop stride body (rs.flatMap encode ++ rest) (rs.flatMap encode).length fuel 0 s =
      some ((placed encode 0 rs).foldl (fun s pr => body s pr.1) s) := by
  simpa using loop_from hdelim rest rs [] s hfuel

/-! ## What the body records -/

/-- If the body keeps an invariant and appends to a record what depends on the
place only, the loop appends this for all places. -/
theorem foldl_log {τ : Type*} {inv : σ → Prop} {log : σ → List τ} {f : Nat → List τ}
    (hstep : ∀ s p, inv s → inv (body s p) ∧ log (body s p) = log s ++ f p)
    (prs : List (Nat × ρ)) {s : σ} (hs : inv s) :
    log (prs.foldl (fun s pr => body s pr.1) s) =
      log s ++ prs.flatMap fun pr => f pr.1 := by
  induction prs generalizing s with
  | nil => simp
  | cons pr prs ih =>
      obtain ⟨hinv, hlog⟩ := hstep s pr.1 hs
      rw [List.foldl_cons, ih hinv, hlog, List.flatMap_cons, List.append_assoc]

/-- What is recorded at the places is what belongs to the records. -/
theorem flatMap_placed {τ : Type*} (f : Nat → List τ) {g : ρ → List τ} {p : Nat}
    {rs : List ρ} (h : ∀ q r, (q, r) ∈ placed encode p rs → f q = g r) :
    ((placed encode p rs).flatMap fun pr => f pr.1) = rs.flatMap g := by
  calc _ = (placed encode p rs).flatMap fun pr => g pr.2 := by
        apply List.flatMap_congr
        rintro ⟨q, r⟩ hr
        exact h q r hr
    _ = ((placed encode p rs).map Prod.snd).flatMap g := by
        rw [List.flatMap_map]
    _ = rs.flatMap g := by
        rw [map_snd_placed]

end Lpi.Verified.RecordWalk
