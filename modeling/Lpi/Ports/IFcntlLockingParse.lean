import Lpi.Ports.IFcntlLocking

/-!
# The commands of `i_fcntl_locking.c`

A line makes a request if `sscanf` finds at least four values in it and there
is a case for each of its letters (`Requests`).  `parse_of_requests` and
`parse_of_not_requests` say what the program does with a line, whatever its
variables contain.

`assigned_before_use` says that no variable is used before `sscanf` or a case
of a switch has stored to it, whatever line is read and whatever the variables
contained before.
-/

namespace Lpi.Ports.IFcntlLocking

open Lpi.Verified.CData
open Lpi.Verified.CInt
open Lpi.Verified.CString
open Lpi.Verified.Lines
open Lpi.Verified.Sscanf
open Lpi.Verified.Strtol

/-! ## What `sscanf` stores -/

/-- The line has the parts that the first four conversions want, and then
`tail`. -/
def Reads (line : List UInt8) (c l : UInt8) (n m : Numeral) (tail : List UInt8) : Prop :=
  ∃ s₁ s₂ s₃, line = c :: s₁ ∧ s₁.dropWhile isspace = l :: s₂ ∧
    IsLeading .decimal s₂ n s₃ ∧ IsLeading .decimal s₃ m tail

/-- The whence, if there is one. -/
def whence? (tail : List UInt8) : Option UInt8 := (tail.dropWhile isspace).head?

section Scan

variable {line tail : List UInt8} {c l : UInt8} {n m : Numeral}

theorem Reads.conversions_eq (h : Reads line c l n m tail) :
    conversions format line =
      .char c :: .char l :: .longLong (clamp .long n.value) ::
        .longLong (clamp .long m.value) :: (whence? tail).toList.map Value.char := by
  obtain ⟨s₁, s₂, s₃, rfl, hl, hn, hm⟩ := h
  rw [format, conversions_c_eq_cons]
  refine ⟨c, s₁, rfl, rfl, Eq.symm ?_⟩
  rw [conversions_space, conversions_c_eq_cons]
  refine ⟨l, s₂, hl, rfl, Eq.symm ?_⟩
  rw [conversions_space_lld, conversions_lld_eq_cons]
  refine ⟨n, s₃, hn, rfl, Eq.symm ?_⟩
  rw [conversions_space_lld, conversions_lld_eq_cons]
  refine ⟨m, tail, hm, rfl, ?_⟩
  rw [conversions_space, whence?]
  cases tail.dropWhile isspace with
  | nil => rfl
  | cons w rest => rfl

/-- Otherwise `sscanf` stops earlier. -/
theorem reads_of_le_length (h : 4 ≤ (conversions format line).length) :
    ∃ c l n m tail, Reads line c l n m tail := by
  rcases hvs : conversions format line with _ | ⟨v₁, _ | ⟨v₂, _ | ⟨v₃, _ | ⟨v₄, vs⟩⟩⟩⟩
  iterate 4 · exact absurd h (by simp [hvs])
  · rw [format, conversions_c_eq_cons] at hvs
    obtain ⟨c, s₁, rfl, _, hvs⟩ := hvs
    rw [eq_comm, conversions_space, conversions_c_eq_cons] at hvs
    obtain ⟨l, s₂, hl, _, hvs⟩ := hvs
    rw [eq_comm, conversions_space_lld, conversions_lld_eq_cons] at hvs
    obtain ⟨n, s₃, hn, _, hvs⟩ := hvs
    rw [eq_comm, conversions_space_lld, conversions_lld_eq_cons] at hvs
    obtain ⟨m, tail, hm, _, _⟩ := hvs
    exact ⟨c, l, n, m, tail, s₁, s₂, s₃, rfl, hl, hn, hm⟩

/-- The result of `sscanf` is below 4 for all other lines. -/
theorem result_lt_four_iff :
    result format line < 4 ↔ ¬ ∃ c l n m tail, Reads line c l n m tail := by
  constructor
  · rintro hlt ⟨c, l, n, m, tail, hreads⟩
    have hvs := hreads.conversions_eq
    rw [result, hvs, if_neg (by simp)] at hlt
    simp only [List.length_cons] at hlt
    omega
  · intro hnot
    rw [result]
    split
    · omega
    · by_contra hle
      exact hnot (reads_of_le_length (by omega))

/-- What is read comes from the line. -/
theorem Reads.ne_zero (h : Reads line c l n m tail) (hnul : 0 ∉ line) :
    c ≠ 0 ∧ l ≠ 0 ∧ (whence? tail).getD 115 ≠ 0 := by
  have hvs := h.conversions_eq
  have hmem : ∀ b, .char b ∈ conversions format line → b ≠ 0 := by
    rintro b hb rfl
    exact hnul (mem_of_char_mem hb)
  refine ⟨hmem c (by simp [hvs]), hmem l (by simp [hvs]), ?_⟩
  cases hw : whence? tail with
  | none => simp
  | some w => exact hmem w (by simp [hvs, hw])

end Scan

/-! ## The variables after `sscanf` -/

theorem trace_assign (f : Frame) (x : Local) (v : Value) :
    ∃ es, (f.assign x v).trace = f.trace ++ es ∧ ∀ e ∈ es, ∃ y, e = .assign y := by
  unfold Frame.assign
  split
  iterate 5 · exact ⟨_, rfl, by simp⟩
  · exact ⟨[], by simp, by simp⟩

/-- Whatever the line, `sscanf` only stores. -/
theorem trace_sscanf (f : Frame) (line : List UInt8) :
    ∃ es, (f.sscanf line).trace = f.trace ++ es ∧ ∀ e ∈ es, ∃ y, e = .assign y := by
  unfold Frame.sscanf
  induction targets.zip (conversions format line) generalizing f with
  | nil => exact ⟨[], by simp, by simp⟩
  | cons xv xvs ih =>
      obtain ⟨es, hes, hall⟩ := trace_assign f xv.1 xv.2
      obtain ⟨es', hes', hall'⟩ := ih (f.assign xv.1 xv.2)
      refine ⟨es ++ es', ?_, ?_⟩
      · rw [List.foldl_cons, hes', hes, List.append_assoc]
      · intro e he
        rcases List.mem_append.1 he with he | he
        · exact hall e he
        · exact hall' e he

theorem assign_of_mem_sscanf {f : Frame} (htrace : f.trace = []) (line : List UInt8) :
    ∀ e ∈ (f.sscanf line).trace, ∃ y, e = .assign y := by
  obtain ⟨es, hes, hall⟩ := trace_sscanf f line
  rw [hes, htrace, List.nil_append]
  exact hall

/-- The variables that are stored to when there are enough values. -/
def stores (tail : List UInt8) : List Event :=
  [.assign .cmdCh, .assign .lock, .assign .start, .assign .length] ++
    (whence? tail).toList.map fun _ => .assign .whence

theorem sscanf_of_reads {line tail : List UInt8} {c l : UInt8} {n m : Numeral}
    (h : Reads line c l n m tail) (f : Frame) (hf : f.whence = 115) :
    f.sscanf line =
      { f with cmdCh := c
               lock := l
               start := clamp .long n.value
               length := clamp .long m.value
               whence := (whence? tail).getD 115
               trace := f.trace ++ stores tail } := by
  rw [Frame.sscanf, h.conversions_eq]
  cases hw : whence? tail with
  | none => simp [targets, Frame.assign, Frame.note, stores, hw, hf]
  | some w => simp [targets, Frame.assign, Frame.note, stores, hw]

/-! ## The tests and the switches -/

@[simp] theorem note_cmdCh (f : Frame) (es : List Event) : (f.note es).cmdCh = f.cmdCh := rfl
@[simp] theorem note_lock (f : Frame) (es : List Event) : (f.note es).lock = f.lock := rfl
@[simp] theorem note_whence (f : Frame) (es : List Event) :
    (f.note es).whence = f.whence := rfl

@[simp] theorem note_note (f : Frame) (es es' : List Event) :
    (f.note es).note es' = f.note (es ++ es') := by
  simp [Frame.note]

/-- A character that is not NUL passes the test for a set if and only if the
switch has a case for it. -/
theorem strchr_eq_isSome (set : String) (cases : List (UInt8 × Int))
    (hset : ascii set = cases.map Prod.fst) {c : UInt8} (hc : c ≠ 0) :
    strchr set c = (cases.lookup c).isSome := by
  rw [Bool.eq_iff_iff, List.lookup_isSome_iff, strchr, hset, Bool.or_eq_true,
    decide_eq_true_eq, beq_iff_eq, or_iff_left hc, List.mem_map]
  constructor
  · rintro ⟨p, hp, rfl⟩
    exact ⟨p, hp, beq_self_eq_true _⟩
  · rintro ⟨p, hp, hkey⟩
    exact ⟨p, hp, (beq_iff_eq.1 hkey).symm⟩

/-- The tests from the second one on, up to where one fails. -/
theorem rejects_eq {f : Frame} {line : List UInt8} (hresult : ¬ result format line < 4)
    (hc : (f.sscanf line).cmdCh ≠ 0) (hl : (f.sscanf line).lock ≠ 0)
    (hw : (f.sscanf line).whence ≠ 0) :
    ∃ es, f.rejects line =
        (!((cmdCases.lookup (f.sscanf line).cmdCh).isSome &&
          (lockCases.lookup (f.sscanf line).lock).isSome &&
          (whenceCases.lookup (f.sscanf line).whence).isSome), (f.sscanf line).note es) ∧
      .fcntl ∉ es ∧ ∀ x, .case x ∉ es := by
  have hcmd := strchr_eq_isSome "gsw" cmdCases (by decide) hc
  have hlock := strchr_eq_isSome "rwu" lockCases (by decide) hl
  have hwhence := strchr_eq_isSome "sce" whenceCases (by decide) hw
  simp only [Frame.rejects, if_neg hresult, note_cmdCh, note_lock, note_whence, note_note,
    hcmd, hlock, hwhence]
  cases (cmdCases.lookup (f.sscanf line).cmdCh).isSome with
  | false => exact ⟨[.examine .cmdCh], by simp⟩
  | true =>
      cases (lockCases.lookup (f.sscanf line).lock).isSome with
      | false => exact ⟨[.examine .cmdCh, .examine .lock], by simp⟩
      | true => exact ⟨[.examine .cmdCh, .examine .lock, .examine .whence], by simp⟩

/-- What the switches and `fcntl` add to the record. -/
def dispatched : List Event :=
  [.examine .cmdCh, .case .cmd, .examine .lock, .case .lType, .examine .whence,
    .case .lWhence, .examine .start, .examine .length, .fcntl]

theorem dispatch_eq {f : Frame} {cmd type whence : Int}
    (hcmd : cmdCases.lookup f.cmdCh = some cmd)
    (htype : lockCases.lookup f.lock = some type)
    (hwhence : whenceCases.lookup f.whence = some whence) :
    f.dispatch.request = ⟨cmd, type, whence, f.start, f.length⟩ ∧
      f.dispatch.trace = f.trace ++ dispatched := by
  simp [Frame.dispatch, Frame.switch, Frame.char, Frame.set, Frame.note, Frame.request,
    hcmd, htype, hwhence, dispatched]

/-! ## Records -/

/-- No variable that is not initialised is used before `sscanf` has stored to
it. -/
def UsesAssigned (trace : List Event) : Prop :=
  ∀ pre x post, trace = pre ++ .examine x :: post → x ≠ .whence → .assign x ∈ pre

/-- When `fcntl` is called, exactly one case of each switch has been
executed. -/
def OneCaseEach (trace : List Event) : Prop :=
  ∀ pre post, trace = pre ++ .fcntl :: post → ∀ x, pre.count (.case x) = 1

theorem usesAssigned_of_stores {es : List Event} (h : ∀ e ∈ es, ∃ y, e = .assign y) :
    UsesAssigned es := by
  rintro pre x post rfl
  obtain ⟨y, hy⟩ := h (.examine x) (by simp)
  cases hy

theorem mem_stores {x : Local} (hx : x ≠ .whence) (tail : List UInt8) :
    .assign x ∈ stores tail := by
  cases x with
  | whence => exact absurd rfl hx
  | _ => simp [stores]

theorem exists_assign_of_mem_stores {tail : List UInt8} {e : Event} (he : e ∈ stores tail) :
    ∃ y, e = .assign y := by
  rw [stores, List.mem_append, List.mem_map] at he
  rcases he with he | ⟨_, _, rfl⟩
  · simp only [List.mem_cons, List.not_mem_nil, or_false] at he
    rcases he with rfl | rfl | rfl | rfl <;> exact ⟨_, rfl⟩
  · exact ⟨_, rfl⟩

theorem notMem_stores {tail : List UInt8} {e : Event} (h : ∀ y, e ≠ .assign y) :
    e ∉ stores tail := by
  intro he
  obtain ⟨y, hy⟩ := exists_assign_of_mem_stores he
  exact h y hy

/-- Everything may be used behind the stores. -/
theorem usesAssigned_append (tail : List UInt8) (es : List Event) :
    UsesAssigned (stores tail ++ es) := by
  intro pre x post heq hx
  rcases List.append_eq_append_iff.1 heq with ⟨more, rfl, _⟩ | ⟨more, hstores, hmore⟩
  · exact List.mem_append_left more (mem_stores hx tail)
  · cases more with
    | nil =>
        rw [List.append_nil] at hstores
        rw [← hstores]
        exact mem_stores hx tail
    | cons e more =>
        -- The use would be one of the stores.
        obtain ⟨rfl, _⟩ := List.cons.inj hmore
        have hmem : .examine x ∈ stores tail := by simp [hstores]
        exact absurd hmem (notMem_stores (by simp))

theorem oneCaseEach_of_notMem {trace : List Event} (h : .fcntl ∉ trace) :
    OneCaseEach trace := by
  rintro pre post rfl
  exact absurd (by simp) h

/-- A record that ends with the switches and `fcntl`. -/
theorem oneCaseEach_dispatched {es : List Event} (hfcntl : .fcntl ∉ es)
    (hcase : ∀ x, .case x ∉ es) : OneCaseEach (es ++ dispatched) := by
  intro pre post heq x
  have hsplit : es ++ dispatched = (es ++ dispatched.dropLast) ++ .fcntl :: [] := by
    simp [dispatched]
  have hnotin : .fcntl ∉ es ++ dispatched.dropLast := by
    simp [hfcntl, dispatched]
  rw [hsplit, List.append_cons_inj_of_notMem hnotin List.not_mem_nil] at heq
  rw [← heq.1, List.count_append, List.count_eq_zero_of_not_mem (hcase x)]
  cases x <;> rfl

/-! ## What a line leads to -/

/-- The line has all parts, and there is a case for each of its letters. -/
def Requests (line : List UInt8) (r : Request) : Prop :=
  ∃ c l n m tail, Reads line c l n m tail ∧ cmdCases.lookup c = some r.cmd ∧
    lockCases.lookup l = some r.type ∧
    whenceCases.lookup ((whence? tail).getD 115) = some r.whence ∧
    r.start = clamp .long n.value ∧ r.len = clamp .long m.value

section Parse

variable {line : List UInt8} {f : Frame}

/-- What `parse` does with a line that is neither blank nor for help. -/
theorem parse_eq (hne : line ≠ []) (hhelp : line.head? ≠ some 63) :
    parse line f =
      if ({ f with whence := 115 }.rejects line).1 then
        (.invalid, ({ f with whence := 115 }.rejects line).2)
      else (.request, ({ f with whence := 115 }.rejects line).2.dispatch) := by
  rw [parse, if_neg hne, if_neg hhelp]

theorem head?_of_requests {r : Request} (h : Requests line r) :
    line ≠ [] ∧ line.head? ≠ some 63 := by
  obtain ⟨c, l, n, m, tail, ⟨s₁, _, _, rfl, _⟩, hcmd, _⟩ := h
  refine ⟨by simp, ?_⟩
  intro hhelp
  obtain rfl : c = 63 := by simpa using hhelp
  have hnone : cmdCases.lookup 63 = none := by decide
  rw [hnone] at hcmd
  cases hcmd

theorem result_of_reads {c l : UInt8} {n m : Numeral} {tail : List UInt8}
    (hreads : Reads line c l n m tail) : ¬ result format line < 4 := by
  rw [result_lt_four_iff, not_not]
  exact ⟨c, l, n, m, tail, hreads⟩

/-- A request is made, whatever the variables contain. -/
theorem parse_of_requests {r : Request} (h : Requests line r) (hnul : 0 ∉ line) :
    ∃ g, parse line f = (.request, g) ∧ g.request = r ∧
      (f.trace = [] → UsesAssigned g.trace ∧ OneCaseEach g.trace) := by
  obtain ⟨hne, hhelp⟩ := head?_of_requests h
  obtain ⟨c, l, n, m, tail, hreads, hcmd, htype, hwhence, hstart, hlen⟩ := h
  obtain ⟨hc, hl, hw⟩ := hreads.ne_zero hnul
  have hscan := sscanf_of_reads hreads { f with whence := 115 } rfl
  obtain ⟨es, hrejects, hfcntl, hcase⟩ := rejects_eq (f := { f with whence := 115 })
    (result_of_reads hreads) (by simpa [hscan] using hc) (by simpa [hscan] using hl)
    (by simpa [hscan] using hw)
  obtain ⟨hrequest, hdispatched⟩ := @dispatch_eq
    (({ f with whence := 115 }.sscanf line).note es) r.cmd r.type r.whence
    (by simpa [hscan] using hcmd) (by simpa [hscan] using htype)
    (by simpa [hscan] using hwhence)
  have haccepts : ({ f with whence := 115 }.rejects line).1 = false := by
    simp [hrejects, hscan, hcmd, htype, hwhence]
  refine ⟨_, by rw [parse_eq hne hhelp, haccepts, hrejects]; rfl, ?_, ?_⟩
  · rw [hrequest, Frame.note, hscan]
    simp only [← hstart, ← hlen]
  · intro htrace
    rw [hdispatched, Frame.note, hscan]
    simp only [htrace, List.nil_append]
    constructor
    · rw [List.append_assoc]
      exact usesAssigned_append tail _
    · apply oneCaseEach_dispatched
      · rw [List.mem_append, not_or]
        exact ⟨notMem_stores (by simp), hfcntl⟩
      · intro x
        rw [List.mem_append, not_or]
        exact ⟨notMem_stores (by simp), hcase x⟩

/-- With all parts, but without a case for one of them, the tests say so. -/
theorem rejects_of_reads {c l : UInt8} {n m : Numeral} {tail : List UInt8}
    (hreads : Reads line c l n m tail) (hnot : ∀ r, ¬ Requests line r) (hnul : 0 ∉ line)
    (hwhence : f.whence = 115) :
    ∃ g es, f.rejects line = (true, g) ∧ g.trace = f.trace ++ (stores tail ++ es) ∧
      .fcntl ∉ es := by
  obtain ⟨hc, hl, hw⟩ := hreads.ne_zero hnul
  have hscan := sscanf_of_reads hreads f hwhence
  obtain ⟨es, hrejects, hfcntl, _⟩ := rejects_eq (f := f) (result_of_reads hreads)
    (by simpa [hscan] using hc) (by simpa [hscan] using hl) (by simpa [hscan] using hw)
  refine ⟨(f.sscanf line).note es, es, ?_, by simp [Frame.note, hscan], hfcntl⟩
  rw [hrejects, Prod.mk.injEq]
  refine ⟨?_, rfl⟩
  simp only [hscan]
  cases hcmd : cmdCases.lookup c with
  | none => simp
  | some cmd =>
      cases htype : lockCases.lookup l with
      | none => simp
      | some type =>
          cases hwh : whenceCases.lookup ((whence? tail).getD 115) with
          | none => simp
          | some whence =>
              exact absurd ⟨c, l, n, m, tail, hreads, hcmd, htype, hwh, rfl, rfl⟩
                (hnot ⟨cmd, type, whence, clamp .long n.value, clamp .long m.value⟩)

/-- A line without a request that is neither blank nor for help is invalid. -/
theorem rejects_of_not_requests (hnot : ∀ r, ¬ Requests line r) (hnul : 0 ∉ line)
    (hwhence : f.whence = 115) :
    ∃ g, f.rejects line = (true, g) ∧
      (f.trace = [] → UsesAssigned g.trace ∧ OneCaseEach g.trace) := by
  by_cases hreads : ∃ c l n m tail, Reads line c l n m tail
  · obtain ⟨c, l, n, m, tail, hreads⟩ := hreads
    obtain ⟨g, es, hrejects, hg, hfcntl⟩ := rejects_of_reads hreads hnot hnul hwhence
    refine ⟨g, hrejects, ?_⟩
    intro htrace
    rw [hg, htrace, List.nil_append]
    refine ⟨usesAssigned_append tail es, oneCaseEach_of_notMem ?_⟩
    rw [List.mem_append, not_or]
    exact ⟨notMem_stores (by simp), hfcntl⟩
  · -- Without all parts, `sscanf` only stores.
    refine ⟨f.sscanf line, by rw [Frame.rejects, if_pos (result_lt_four_iff.2 hreads)], ?_⟩
    intro htrace
    have hall := assign_of_mem_sscanf htrace line
    refine ⟨usesAssigned_of_stores hall, oneCaseEach_of_notMem ?_⟩
    intro hmem
    obtain ⟨y, hy⟩ := hall _ hmem
    cases hy

/-- The other lines are blank, for help, or invalid. -/
theorem parse_of_not_requests (hnot : ∀ r, ¬ Requests line r) (hnul : 0 ∉ line) :
    ∃ g, parse line f = (if line = [] then .blank else
        if line.head? = some 63 then .help else .invalid, g) ∧
      (f.trace = [] → UsesAssigned g.trace ∧ OneCaseEach g.trace) := by
  have hempty : f.trace = [] → UsesAssigned f.trace ∧ OneCaseEach f.trace := by
    intro htrace
    rw [htrace]
    exact ⟨usesAssigned_of_stores (by simp), oneCaseEach_of_notMem (by simp)⟩
  by_cases hblank : line = []
  · exact ⟨f, by rw [parse, if_pos hblank, if_pos hblank], hempty⟩
  · by_cases hhelp : line.head? = some 63
    · refine ⟨f, ?_, hempty⟩
      rw [parse, if_neg hblank, if_neg hblank, if_pos hhelp, if_pos hhelp]
    · obtain ⟨g, hrejects, hg⟩ := rejects_of_not_requests
        (f := { f with whence := 115 }) hnot hnul rfl
      refine ⟨g, ?_, hg⟩
      rw [parse_eq hblank hhelp, if_neg hblank, if_neg hhelp, hrejects]
      rfl

/-- Requests or not, the record of a line is sound. -/
theorem parse_sound (hnul : 0 ∉ line) (htrace : f.trace = []) :
    UsesAssigned (parse line f).2.trace ∧ OneCaseEach (parse line f).2.trace := by
  by_cases h : ∃ r, Requests line r
  · obtain ⟨r, hr⟩ := h
    obtain ⟨g, hparse, _, hg⟩ := parse_of_requests (f := f) hr hnul
    rw [hparse]
    exact hg htrace
  · obtain ⟨g, hparse, hg⟩ := parse_of_not_requests (f := f) (not_exists.1 h) hnul
    rw [hparse]
    exact hg htrace

end Parse

/-! ## A round of the loop -/

section Round

variable {k : Kernel} {s : State}

theorem parse_fst_eq_blank {line : List UInt8} {f : Frame} :
    (parse line f).1 = .blank ↔ line = [] := by
  unfold parse
  split
  · simp [*]
  · split
    · simp [*]
    · simp only
      split <;> simp [*]

/-- A line, unless it is blank. -/
def unlessBlank (line : List UInt8) : List (List UInt8) :=
  if line = [] then [] else [line]

/-- What does not depend on the answer of the system. -/
theorem execute_spec :
    (s.execute k).state.stdin = s.stdin ∧
      (s.execute k).state.commands =
        s.commands ++ unlessBlank (cString s.line) ∧
      (s.execute k).state.frame = (parse (cString s.line) s.frame).2 := by
  have hblank := @parse_fst_eq_blank (cString s.line) s.frame
  rw [State.execute]
  generalize parse (cString s.line) s.frame = result at hblank ⊢
  obtain ⟨parsed, frame⟩ := result
  cases parsed with
  | blank =>
      rw [unlessBlank, if_pos (hblank.1 rfl), List.append_nil]
      exact ⟨rfl, rfl, rfl⟩
  | request =>
      rw [unlessBlank, if_neg (by simp [← hblank])]
      simp only
      cases respond k.pid frame.request (k.fcntl s.requests.length frame.request) with
      | ok out => exact ⟨rfl, rfl, rfl⟩
      | error message => exact ⟨rfl, rfl, rfl⟩
  | _ =>
      rw [unlessBlank, if_neg (by simp [← hblank])]
      exact ⟨rfl, rfl, rfl⟩

theorem requests_execute {r : Request} (h : Requests (cString s.line) r) :
    (s.execute k).state.requests = s.requests ++ [r] := by
  obtain ⟨g, hparse, hrequest, _⟩ := parse_of_requests (f := s.frame) h
    (zero_notMem_cString s.line)
  rw [State.execute, hparse]
  simp only [hrequest]
  cases respond k.pid r (k.fcntl s.requests.length r) with
  | ok out => rfl
  | error message => rfl

/-- What is printed for a line that is not a request. -/
def reply (line : List UInt8) : List UInt8 :=
  if line = [] then []
  else if line.head? = some 63 then cmdFormat
  else ascii "Invalid command!\n"

theorem execute_of_not_requests (h : ∀ r, ¬ Requests (cString s.line) r) :
    ∃ t, s.execute k = .next t ∧ t.requests = s.requests ∧
      t.stdout = s.stdout ++ reply (cString s.line) := by
  obtain ⟨g, hparse, _⟩ := parse_of_not_requests (f := s.frame) h
    (zero_notMem_cString s.line)
  by_cases hblank : cString s.line = []
  · rw [if_pos hblank] at hparse
    rw [State.execute, hparse]
    exact ⟨_, rfl, rfl, by simp [reply, hblank]⟩
  · by_cases hhelp : (cString s.line).head? = some 63
    · rw [if_neg hblank, if_pos hhelp] at hparse
      rw [State.execute, hparse]
      exact ⟨_, rfl, rfl, by simp [reply, hblank, hhelp, State.print]⟩
    · rw [if_neg hblank, if_neg hhelp] at hparse
      rw [State.execute, hparse]
      exact ⟨_, rfl, rfl, by simp [reply, hblank, hhelp, State.print]⟩

end Round

/-- **No variable is used before it is assigned.**  In every round of the loop,
whatever is read, whatever the variables contained before and whatever the
system answers: no variable that is not initialised is used before `sscanf` has
stored to it, and when `fcntl` is called, one case of each switch has been
executed. -/
theorem assigned_before_use (k : Kernel) (s : State) :
    UsesAssigned (s.round k).state.frame.trace ∧
      OneCaseEach (s.round k).state.frame.trace := by
  have hempty : UsesAssigned [] ∧ OneCaseEach [] :=
    ⟨usesAssigned_of_stores (by simp), oneCaseEach_of_notMem (by simp)⟩
  rw [State.round]
  split
  · exact hempty
  · rw [State.strip]
    split
    · rw [execute_spec.2.2]
      exact parse_sound (zero_notMem_cString _) rfl
    · exact hempty

end Lpi.Ports.IFcntlLocking
