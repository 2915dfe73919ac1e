import ScriptTrace.Proofs.Coverage.Line
import ScriptTrace.Proofs.Hash
import ScriptTrace.Proofs.Storage.Stream

/-!
A reader of coverage logs. A log may stop anywhere, so its complete lines are those that are ended
(`CoverageLine.completeLines`). Each is told from its characters (`CoverageLine.parse?_chars`): only
a hash begins with `0x`, and only the numbers of a branch are set apart by blanks. So the entries
that are read from the front of a log are those of the lines that are complete in it
(`CoverageLine.readLog_upTo`).
-/

set_option autoImplicit false
set_option relaxedAutoImplicit false

namespace ScriptTrace

/-- What is recorded in a coverage log. -/
inductive CoverageEntry where
  /-- A script became current. -/
  | script (hash : Hash)
  /-- Control returned above the outermost frame. -/
  | outermost
  | address (position : Nat)
  | branch (position target outcome : Nat)
deriving DecidableEq

namespace CoverageLine

/-- The number that a text of digits stands for. -/
def number? (cs : List Char) : Option Nat :=
  if cs ≠ [] ∧ cs.all Char.isDigit then some (Nat.ofDigitChars 10 cs 0) else none

/-- The line with these characters, if there is one. -/
def parse? (cs : List Char) : Option CoverageLine :=
  match cs with
  | '0' :: 'x' :: _ => (Hash.parse (String.ofList cs)).toOption.map current
  | _ =>
    match (cs.splitOn ' ').map number? with
    | [some position] => some (address position)
    | [some position, some target, some outcome] => some (branch position target outcome)
    | _ => none

/-- What a line records. The zero hash stands for no script. -/
def entry : CoverageLine → CoverageEntry
  | current hash => if hash = Hash.zero then .outermost else .script hash
  | address position => .address position
  | branch position target outcome => .branch position target outcome

/-- The byte that ends a line. -/
def newline : UInt8 := 10

/-- The lines of a log that are ended, without their ends. -/
def completeLines (log : Bytes) : List Bytes := (log.splitOn newline).dropLast

/-- The entries of a log, as far as its lines are complete. -/
def readLog (log : Bytes) : List CoverageEntry :=
  (completeLines log).filterMap fun line ↦
    ((Bytes.toString? line).bind (parse? ·.toList)).map entry

/-! ### Lines -/

theorem number?_toDigits (n : Nat) : number? (Nat.toDigits 10 n) = some n := by
  have hdigits : (Nat.toDigits 10 n).all Char.isDigit := by
    rw [List.all_eq_true]
    exact fun c hc ↦ Nat.isDigit_of_mem_toDigits (by decide) (by decide) hc
  rw [number?, if_pos ⟨Nat.toDigits_ne_nil, hdigits⟩, Nat.ofDigitChars_ten_toDigits]

/-- A line is told from its characters. -/
theorem parse?_chars (l : CoverageLine) : parse? l.chars = some l := by
  have hspace := notMem_toDigits (c := ' ') (by decide)
  have hx := notMem_toDigits (c := 'x') (by decide)
  cases l with
  | current hash =>
    have hparse : Hash.parse (String.ofList (current hash).chars) = .ok hash := by
      rw [← hash.parse_display, Hash.display_eq]
      rfl
    simp only [parse?, chars] at hparse ⊢
    rw [hparse]
    rfl
  | address position =>
    unfold parse?
    split
    · rename_i rest hbegins
      have hmem : 'x' ∈ (address position).chars := by simp [hbegins]
      exact absurd hmem (hx position)
    · rw [chars, List.splitOn_eq_singleton (hspace position), List.map_singleton,
        number?_toDigits]
  | branch position target outcome =>
    unfold parse?
    split
    · rename_i rest hbegins
      have hmem : 'x' ∈ (branch position target outcome).chars := by simp [hbegins]
      simp [chars, hx] at hmem
    · rw [chars, List.splitOn_append_cons_self_of_not_mem (hspace position),
        List.splitOn_append_cons_self_of_not_mem (hspace target),
        List.splitOn_eq_singleton (hspace outcome), List.map_cons, List.map_cons,
        List.map_singleton, number?_toDigits, number?_toDigits, number?_toDigits]

theorem ascii_of_mem_chars {l : CoverageLine} {c : Char} (hc : c ∈ l.chars) : c.val ≤ 127 := by
  have hdigits {n : Nat} (hc : c ∈ Nat.toDigits 10 n) : c.val ≤ 127 := by
    have hdigit := Nat.isDigit_of_mem_toDigits (by decide) (by decide) hc
    simp only [Char.isDigit, Bool.and_eq_true, decide_eq_true_eq] at hdigit
    exact UInt32.le_trans hdigit.2 (by decide)
  cases l with
  | current hash => exact Hash.ascii_of_mem_chars hc
  | address position => exact hdigits hc
  | branch position target outcome =>
    simp only [chars, List.mem_append, List.mem_cons] at hc
    rcases hc with hc | rfl | hc | rfl | hc
    · exact hdigits hc
    · decide
    · exact hdigits hc
    · decide
    · exact hdigits hc

/-- The bytes of a line but for the one that ends it. -/
def body (l : CoverageLine) : Bytes := Bytes.ofString (String.ofList l.chars)

theorem bytes_eq_body (l : CoverageLine) : l.bytes = l.body ++ [newline] := by
  rw [bytes_eq, String.ofList_append, Bytes.ofString_append]
  rfl

theorem newline_notMem_body (l : CoverageLine) : newline ∉ l.body := by
  rw [body, Bytes.ofString_of_ascii fun _ ↦ ascii_of_mem_chars]
  intro hmem
  obtain ⟨c, hc, hcode⟩ := List.mem_map.mp hmem
  have hascii : c.val.toNat ≤ 127 := ascii_of_mem_chars hc
  have hvalue : c.val.toNat % 256 = 10 := congrArg UInt8.toNat hcode
  have heq : c = '\n' := Char.ext (UInt32.toNat_inj.mp (show c.val.toNat = 10 by omega))
  exact l.newline_notMem_chars (heq ▸ hc)

/-! ### Logs -/

theorem completeLines_append (lines : List CoverageLine) {part : Bytes} (hpart : newline ∉ part) :
    completeLines (text lines ++ part) = lines.map body := by
  have hsplit : (text lines ++ part).splitOn newline = lines.map body ++ [part] := by
    induction lines with
    | nil => exact List.splitOn_eq_singleton hpart
    | cons l rest ih =>
      have htext : text (l :: rest) ++ part = l.body ++ newline :: (text rest ++ part) := by
        rw [text, List.flatMap_cons, bytes_eq_body, List.append_assoc, List.append_assoc]
        rfl
      rw [htext, List.splitOn_append_cons_self_of_not_mem l.newline_notMem_body, ih]
      rfl
  rw [completeLines, hsplit, List.dropLast_concat]

theorem count_newline_text (lines : List CoverageLine) :
    (text lines).count newline = lines.length := by
  induction lines with
  | nil => rfl
  | cons l rest ih =>
    have hline : l.bytes.count newline = 1 := by
      rw [bytes_eq_body, List.count_append, List.count_eq_zero_of_not_mem l.newline_notMem_body]
      rfl
    rw [text, List.flatMap_cons, List.count_append, hline, List.length_cons, Nat.add_comm]
    exact congrArg (· + 1) ih

/-- The front of a log is some of its lines and a part without an end. -/
theorem exists_upTo_text (room : Option Nat) (lines : List CoverageLine) :
    ∃ count ≤ lines.length, ∃ part, newline ∉ part ∧
      Bytes.upTo room (text lines) = text (lines.take count) ++ part := by
  cases room with
  | none => exact ⟨lines.length, Nat.le_refl _, [], List.not_mem_nil, by simp [Bytes.upTo]⟩
  | some left =>
    obtain ⟨part, htake, hpart⟩ := Bytes.exists_take_flatten left (lines.map bytes)
    have hle := Bytes.fitting_le_length left (lines.map bytes)
    rw [List.length_map] at hle
    refine ⟨_, hle, part, ?_, ?_⟩
    · rcases hpart with rfl | ⟨bs, hbs, hfront, hne⟩
      · exact List.not_mem_nil
      · rw [List.getElem?_map] at hbs
        obtain ⟨l, -, rfl⟩ := Option.map_eq_some_iff.mp hbs
        rw [bytes_eq_body, List.prefix_concat_iff] at hfront
        rcases hfront with heq | hfront
        · exact absurd (heq.trans l.bytes_eq_body.symm) hne
        · exact fun hmem ↦ l.newline_notMem_body (hfront.subset hmem)
    · rw [← List.map_take] at htake
      exact htake

/-- From the front of a log its lines are read, as far as they are complete. -/
theorem readLog_upTo (room : Option Nat) (lines : List CoverageLine) :
    readLog (Bytes.upTo room (text lines)) =
      (lines.map entry).take ((Bytes.upTo room (text lines)).count newline) := by
  obtain ⟨count, hle, part, hpart, hfront⟩ := exists_upTo_text room lines
  have hcount : (Bytes.upTo room (text lines)).count newline = count := by
    rw [hfront, List.count_append, count_newline_text, List.count_eq_zero_of_not_mem hpart,
      List.length_take_of_le hle, Nat.add_zero]
  have hread (l : CoverageLine) :
      ((Bytes.toString? l.body).bind (parse? ·.toList)).map entry = some l.entry := by
    rw [body, (Bytes.toString?_eq_some_iff _ _).mpr rfl, Option.bind_some, String.toList_ofList,
      parse?_chars, Option.map_some]
  rw [hcount, readLog, hfront, completeLines_append _ hpart, List.filterMap_map, ← List.map_take]
  induction lines.take count with
  | nil => rfl
  | cons l rest ih => rw [List.filterMap_cons, Function.comp_apply, hread, ih, List.map_cons]

end CoverageLine

end ScriptTrace
