import Mathlib.Data.Finset.Sort
import Mathlib.Order.Interval.Finset.Fin
import NotK8s.Library.Text

namespace NotK8s.Nodelet

open Library

/-!
# Lists of CPUs

The text of a set of CPUs, ascending ranges between commas, as one file writes
it and another reads it.  The writer compares each CPU with the end of the run
before it plus one; the reader skips what it cannot read.
-/

/-- The CPU ids, 32 bits wide. -/
abbrev CpuId :=
  Fin (2 ^ 32)

def lastId : CpuId :=
  ⟨2 ^ 32 - 1, by decide⟩

/-- The runs of consecutive ids, `start` to `end_` being the one in progress.
There is no result where `end_ + 1` overflows; it is computed for the last id
too. -/
def runsFrom (start end_ : CpuId) : List CpuId -> Option (List (CpuId × CpuId))
  | [] => if end_.val + 1 < 2 ^ 32 then some [(start, end_)] else none
  | next :: rest =>
    if end_.val + 1 < 2 ^ 32 then
      if next.val = end_.val + 1 then runsFrom start next rest
      else (runsFrom next next rest).map fun runs => (start, end_) :: runs
    else none

def runsOf : List CpuId -> Option (List (CpuId × CpuId))
  | [] => some []
  | start :: rest => runsFrom start start rest

def renderRun (run : CpuId × CpuId) : List Char :=
  if run.1 = run.2 then Nat.toDigits 10 run.1.val
  else Nat.toDigits 10 run.1.val ++ '-' :: Nat.toDigits 10 run.2.val

def formatCpuset (cpus : Finset CpuId) : Option String :=
  (runsOf cpus.sort).map fun runs => String.ofList ([','].intercalate (runs.map renderRun))

def parseId (text : List Char) : Option CpuId :=
  (Text.unsigned text).bind fun n => if small : n < 2 ^ 32 then some ⟨n, small⟩ else none

/-- The ids one entry of a list names. -/
def partIds (part : List Char) : Finset CpuId :=
  match Text.splitOnce '-' part with
  | some (start, end_) =>
    match parseId start, parseId end_ with
    | some start, some end_ => if start ≤ end_ then Finset.Icc start end_ else ∅
    | _, _ => ∅
  | none =>
    match parseId part with
    | some id => {id}
    | none => ∅

def parseCpulist (s : String) : Finset CpuId :=
  (Text.split ',' (Text.trim s.toList)).foldl
    (fun out part =>
      let part := Text.trim part
      if part.isEmpty then out else out ∪ partIds part) ∅

/-! ## What a list denotes -/

/-- A number as decimal digits write it, after a plus sign or none. -/
def Writes (text : List Char) (id : CpuId) : Prop :=
  Exists fun digits => (text = digits ∨ text = '+' :: digits) ∧ digits ≠ [] ∧
    (forall c, c ∈ digits -> c.isDigit = true) ∧ Text.decimal digits = id.val

/-- A well-formed entry: one id, or two with a dash between them that are not
in reverse. -/
inductive Denotes : List Char -> CpuId -> CpuId -> Prop where
  | single {text : List Char} {id : CpuId} (writes : Writes text id) : Denotes text id id
  | range {first last : List Char} {start end_ : CpuId} (from_ : Writes first start) (to_ : Writes last end_)
      (ordered : start ≤ end_) : Denotes (first ++ '-' :: last) start end_

/-- An id of a well-formed entry, white space around it aside. -/
def Named (s : String) (id : CpuId) : Prop :=
  Exists fun entry => entry ∈ Text.split ',' (Text.trim s.toList) ∧
    Exists fun start => Exists fun end_ => Denotes (Text.trim entry) start end_ ∧ start ≤ id ∧ id ≤ end_

variable {text first last : List Char} {id start end_ : CpuId} {rest : List CpuId} {runs : List (CpuId × CpuId)}

theorem parseId_eq_some : parseId text = some id <-> Writes text id := by
  unfold parseId
  rw [Option.bind_eq_some_iff]
  constructor
  · rintro ⟨n, read, within⟩
    split_ifs at within with small
    have value := congrArg Fin.val (Option.some.inj within)
    unfold Text.unsigned at read
    dsimp only at read
    split_ifs at read with plain
    rw [Bool.and_eq_true, Bool.not_eq_true', List.isEmpty_eq_false_iff, List.all_eq_true] at plain
    have known := And.intro plain ((Option.some.inj read).trans value)
    split at known
    · next digits => exact ⟨digits, Or.inr rfl, known.1.1, known.1.2, known.2⟩
    · exact ⟨text, Or.inl rfl, known.1.1, known.1.2, known.2⟩
  · rintro ⟨digits, shape, filled, plain, value⟩
    have sane : (!digits.isEmpty && digits.all Char.isDigit) = true := by
      simpa [filled] using plain
    refine ⟨id.val, ?_, by simp⟩
    rcases shape with rfl | rfl
    · unfold Text.unsigned
      split
      · nomatch plain '+' (.head _)
      · simp only [sane, if_true, value]
    · simp only [Text.unsigned, sane, if_true, value]

theorem not_mem_of_writes (writes : Writes text id) {c : Char} (other : c.isDigit = false) (sign : c ≠ '+') : c ∉ text := by
  rcases writes with ⟨digits, shape, -, plain, -⟩
  have absent : c ∉ digits := fun listed => by simp [plain c listed] at other
  rcases shape with rfl | rfl
  · exact absent
  · simp [sign, absent]

theorem splitOnce_eq_some {front back : List Char} (found : Text.splitOnce '-' text = some (front, back)) :
    text = front ++ '-' :: back := by
  induction text generalizing front with
  | nil => cases found
  | cons c rest ih =>
    rw [Text.splitOnce] at found
    split_ifs at found with dash
    · simp_all
    · rcases Option.map_eq_some_iff.mp found with ⟨parts, apart, same⟩
      cases same
      rw [ih apart, List.cons_append]

theorem splitOnce_none (absent : '-' ∉ text) : Text.splitOnce '-' text = none := by
  induction text with
  | nil => rfl
  | cons c rest ih =>
    rw [List.mem_cons, not_or] at absent
    rw [Text.splitOnce, if_neg (Ne.symm absent.1), ih absent.2, Option.map_none]

theorem partIds_of_denotes (denotes : Denotes text start end_) : partIds text = Finset.Icc start end_ := by
  unfold partIds
  cases denotes with
  | single writes =>
    rw [splitOnce_none (not_mem_of_writes writes (by decide) (by decide)), parseId_eq_some.mpr writes]
    exact (Finset.Icc_self start).symm
  | range from_ to_ ordered =>
    rw [Text.splitOnce_append (not_mem_of_writes from_ (by decide) (by decide))]
    simp [parseId_eq_some.mpr from_, parseId_eq_some.mpr to_, ordered]

/-- The ids of an entry are those of the range it denotes, if it denotes one. -/
theorem mem_partIds : id ∈ partIds text <->
    Exists fun start => Exists fun end_ => Denotes text start end_ ∧ start ≤ id ∧ id ≤ end_ := by
  constructor
  · intro member
    unfold partIds at member
    split at member
    · next first last found =>
      split at member
      · next start end_ from_ to_ =>
        split_ifs at member with ordered
        · rw [splitOnce_eq_some found]
          have within := Finset.mem_Icc.mp member
          exact ⟨start, end_, .range (parseId_eq_some.mp from_) (parseId_eq_some.mp to_) ordered, within⟩
        · simp at member
      · simp at member
    · split at member
      · next single read =>
        obtain rfl := Finset.mem_singleton.mp member
        exact ⟨id, id, .single (parseId_eq_some.mp read), le_rfl, le_rfl⟩
      · simp at member
  · rintro ⟨start, end_, denotes, within⟩
    rw [partIds_of_denotes denotes]
    exact Finset.mem_Icc.mpr within

theorem not_denotes_nil : ¬ Denotes [] start end_ := by
  intro denotes
  generalize none : ([] : List Char) = text at denotes
  cases denotes with
  | single writes =>
    rcases writes with ⟨digits, shape, filled, -, -⟩
    simp_all
  | range => simp at none

theorem mem_parseCpulist {s : String} : id ∈ parseCpulist s <-> Named s id := by
  unfold parseCpulist Named
  generalize Text.split ',' (Text.trim s.toList) = entries
  suffices folded : forall out : Finset CpuId, id ∈ entries.foldl (fun out part =>
      let part := Text.trim part
      if part.isEmpty then out else out ∪ partIds part) out <->
        id ∈ out ∨ Exists fun entry => entry ∈ entries ∧ id ∈ partIds (Text.trim entry) by
    simp only [folded, mem_partIds, Finset.notMem_empty, false_or]
  induction entries with
  | nil => simp
  | cons entry entries ih =>
    intro out
    have added : id ∈ (if (Text.trim entry).isEmpty then out else out ∪ partIds (Text.trim entry)) <->
        id ∈ out ∨ id ∈ partIds (Text.trim entry) := by
      split_ifs with empty
      · rw [List.isEmpty_iff.mp empty]
        have none : id ∉ partIds [] := by simp [mem_partIds, not_denotes_nil]
        simp [none]
      · exact Finset.mem_union
    simp only [List.foldl_cons, ih, added, or_assoc, List.exists_mem_cons_iff]

/-! ## What the writer writes -/

theorem writes_toDigits (id : CpuId) : Writes (Nat.toDigits 10 id.val) id :=
  ⟨_, Or.inl rfl, Nat.toDigits_ne_nil, List.all_eq_true.mp (Text.isDigit_toDigits _), Text.decimal_toDigits _⟩

theorem denotes_renderRun {run : CpuId × CpuId} (ordered : run.1 ≤ run.2) : Denotes (renderRun run) run.1 run.2 := by
  unfold renderRun
  split_ifs with single
  · rw [← single]
    exact .single (writes_toDigits run.1)
  · exact .range (writes_toDigits run.1) (writes_toDigits run.2) ordered

theorem runsFrom_none (sorted : (end_ :: rest).Pairwise (· < ·)) :
    runsFrom start end_ rest = none <-> lastId ∈ end_ :: rest := by
  induction rest generalizing start end_ with
  | nil =>
    have last : end_.val + 1 < 2 ^ 32 <-> lastId ≠ end_ := by
      rw [ne_eq, Fin.ext_iff]
      dsimp only [lastId]
      omega
    simp only [runsFrom, last, List.mem_singleton, ite_eq_right_iff, reduceCtorEq, imp_false, not_not]
  | cons next rest ih =>
    have above : end_ < next := (List.pairwise_cons.mp sorted).1 next (.head _)
    have later := (List.pairwise_cons.mp sorted).2
    have inside : end_.val + 1 < 2 ^ 32 := Nat.lt_of_le_of_lt above next.isLt
    have differs : lastId ≠ end_ := by
      rw [ne_eq, Fin.ext_iff]
      dsimp only [lastId]
      omega
    rw [runsFrom, if_pos inside, List.mem_cons, or_iff_right differs]
    split_ifs
    · exact ih later
    · rw [Option.map_eq_none_iff]
      exact ih later

theorem mem_runsFrom (found : runsFrom start end_ rest = some runs) (ordered : start ≤ end_) :
    (forall run, run ∈ runs -> run.1 ≤ run.2) ∧ runs ≠ [] ∧
      forall id, (Exists fun run => run ∈ runs ∧ run.1 ≤ id ∧ id ≤ run.2) <-> (start ≤ id ∧ id ≤ end_) ∨ id ∈ rest := by
  induction rest generalizing start end_ runs with
  | nil =>
    rw [runsFrom] at found
    split_ifs at found with inside
    obtain rfl := Option.some.inj found
    simp [ordered]
  | cons next rest ih =>
    rw [runsFrom] at found
    split_ifs at found with inside follows
    · have longer (id : CpuId) : start ≤ id ∧ id ≤ next <-> (start ≤ id ∧ id ≤ end_) ∨ id = next := by
        simp only [Fin.le_def, Fin.ext_iff] at ordered ⊢
        omega
      rcases ih found ((longer next).mpr (Or.inr rfl)).1 with ⟨each, filled, all⟩
      refine ⟨each, filled, fun id => (all id).trans ?_⟩
      rw [longer, List.mem_cons, or_assoc]
    · rcases Option.map_eq_some_iff.mp found with ⟨others, further, rfl⟩
      rcases ih further le_rfl with ⟨each, -, all⟩
      refine ⟨by simpa [ordered] using each, by simp, fun id => ?_⟩
      have more := all id
      rw [and_comm, ← le_antisymm_iff] at more
      simp [more]

theorem char_renderRun {run : CpuId × CpuId} {c : Char} (listed : c ∈ renderRun run) : c.isDigit = true ∨ c = '-' := by
  have digits (n : Nat) : forall c, c ∈ Nat.toDigits 10 n -> c.isDigit = true := List.all_eq_true.mp (Text.isDigit_toDigits n)
  unfold renderRun at listed
  split_ifs at listed with single
  · exact Or.inl (digits _ c listed)
  · rcases List.mem_append.mp listed with front | back
    · exact Or.inl (digits _ c front)
    · exact (List.mem_cons.mp back).symm.imp_left (digits _ c)

theorem trim_renderRun {run : CpuId × CpuId} : Text.trim (renderRun run) = renderRun run :=
  Text.trim_of_solid fun c listed => (char_renderRun listed).elim Text.not_isWhitespace_of_isDigit fun dash => by simp [dash]; decide

theorem split_runs (filled : runs ≠ []) :
    Text.split ',' ([','].intercalate (runs.map renderRun)) = runs.map renderRun := by
  have apart (run : CpuId × CpuId) : ',' ∉ renderRun run := fun listed => by
    rcases char_renderRun listed with digit | dash
    · cases digit
    · cases dash
  induction runs with
  | nil => exact absurd rfl filled
  | cons run runs ih =>
    cases runs with
    | nil => simpa [List.intercalate] using Text.split_piece (apart run)
    | cons next runs =>
      have further := ih (List.cons_ne_nil _ _)
      simp only [List.map_cons] at further ⊢
      rw [List.intercalate_cons_cons, List.append_assoc, List.singleton_append, Text.split_append (apart run), further]

theorem not_blank_runs {c : Char} (listed : c ∈ [','].intercalate (runs.map renderRun)) : Text.isWhitespace c = false := by
  have shape : c = ',' ∨ Exists fun run => run ∈ runs ∧ c ∈ renderRun run := by
    induction runs with
    | nil => cases listed
    | cons run runs ih =>
      cases runs with
      | nil => exact Or.inr ⟨run, .head _, by simpa [List.intercalate] using listed⟩
      | cons next runs =>
        simp only [List.map_cons, List.intercalate_cons_cons, List.mem_append, List.mem_singleton] at listed
        rcases listed with (here | comma) | further
        · exact Or.inr ⟨run, .head _, here⟩
        · exact Or.inl comma
        · rcases ih further with comma | ⟨run, member, inside⟩
          · exact Or.inl comma
          · exact Or.inr ⟨run, .tail _ member, inside⟩
  rcases shape with rfl | ⟨run, -, inside⟩
  · decide
  · rcases char_renderRun inside with digit | rfl
    · exact Text.not_isWhitespace_of_isDigit digit
    · decide

/-- What the writer writes is read back, wherever it does not overflow. -/
theorem parse_formatCpuset {cpus : Finset CpuId} {text : String} (written : formatCpuset cpus = some text) :
    parseCpulist text = cpus := by
  rcases Option.map_eq_some_iff.mp written with ⟨runs, found, rfl⟩
  ext id
  rw [mem_parseCpulist]
  unfold Named
  rw [String.toList_ofList, Text.trim_of_solid fun c => not_blank_runs]
  rw [← Finset.mem_sort (· ≤ ·)]
  cases listed : cpus.sort with
  | nil =>
    rw [listed] at found
    obtain rfl := Option.some.inj found
    simp only [List.map_nil, List.not_mem_nil, iff_false]
    rintro ⟨entry, only, start, end_, denotes, -⟩
    obtain rfl := List.mem_singleton.mp only
    exact not_denotes_nil denotes
  | cons first rest =>
    rw [listed] at found
    rcases mem_runsFrom found le_rfl with ⟨ordered, filled, all⟩
    have members := all id
    rw [and_comm, ← le_antisymm_iff, ← List.mem_cons] at members
    rw [split_runs filled, ← members]
    constructor
    · rintro ⟨entry, listed, named⟩
      rcases List.mem_map.mp listed with ⟨run, member, rfl⟩
      have inside := mem_partIds.mpr named
      rw [trim_renderRun, partIds_of_denotes (denotes_renderRun (ordered run member))] at inside
      exact ⟨run, member, Finset.mem_Icc.mp inside⟩
    · rintro ⟨run, member, within⟩
      refine ⟨_, List.mem_map_of_mem member, run.1, run.2, ?_, within⟩
      rw [trim_renderRun]
      exact denotes_renderRun (ordered run member)

theorem formatCpuset_none {cpus : Finset CpuId} : formatCpuset cpus = none <-> lastId ∈ cpus := by
  have sorted := cpus.sortedLT_sort
  unfold formatCpuset
  rw [Option.map_eq_none_iff, ← Finset.mem_sort (· ≤ ·)]
  cases listed : cpus.sort with
  | nil => simp [runsOf]
  | cons first rest =>
    rw [listed] at sorted
    exact runsFrom_none sorted.pairwise

/-- A set of CPUs is written without an overflow, and read back as it was,
exactly when the last id is not in it; and any text at all is read as the ids
of its well-formed entries. -/
theorem cpulist_exact_iff (cpus : Finset CpuId) (s : String) :
    ((formatCpuset cpus).map parseCpulist = some cpus <-> lastId ∉ cpus) ∧
      forall id, id ∈ parseCpulist s <-> Named s id := by
  refine ⟨?_, fun id => mem_parseCpulist⟩
  rw [← formatCpuset_none]
  cases written : formatCpuset cpus with
  | none => simp
  | some text => simp [parse_formatCpuset written]

/-- The last id is compared with one past it. -/
theorem lastCpu_overflows : ¬ forall cpus : Finset CpuId, (formatCpuset cpus).map parseCpulist = some cpus := by
  intro every
  have written := every {lastId}
  rw [formatCpuset_none.mpr (Finset.mem_singleton_self _)] at written
  nomatch written

end NotK8s.Nodelet
