import ScriptTrace.Coverage.Line
import ScriptTrace.Proofs.Bytes.Fixed
import ScriptTrace.Proofs.Bytes.Hex

/-!
What a coverage log says. The bytes of a log are the texts of its lines one after the other, and no
other lines have them (`CoverageLine.text_injective`). A line that says that a position ran is
attributed to the script named by the last hash line before it (`CoverageLine.attributed`).
-/

set_option autoImplicit false
set_option relaxedAutoImplicit false

namespace ScriptTrace

namespace CoverageLine

/-! ### Lines are told apart -/

/-- The characters of a line but for the one that ends it. -/
def chars : CoverageLine → List Char
  | current hash => '0' :: 'x' :: Bytes.hexDigits hash.bytes.reverse
  | address position => Nat.toDigits 10 position
  | branch position target outcome =>
    Nat.toDigits 10 position ++ ' ' :: (Nat.toDigits 10 target ++ ' ' :: Nat.toDigits 10 outcome)

/-- The bytes of lines, one after the other. -/
def text (lines : List CoverageLine) : Bytes := lines.flatMap bytes

theorem bytes_eq (l : CoverageLine) :
    l.bytes = Bytes.ofString (String.ofList (l.chars ++ ['\n'])) := by
  have hpieces (ps : List String) : ps.flatMap Bytes.ofString =
      Bytes.ofString (String.ofList (ps.flatMap String.toList)) := by
    induction ps with
    | nil => rfl
    | cons p rest ih =>
      rw [List.flatMap_cons, List.flatMap_cons, ih, String.ofList_append, Bytes.ofString_append,
        String.ofList_toList]
  rw [bytes, hpieces]
  cases l with
  | current hash => simp [pieces, chars, Bytes.hex]
  | address position => simp [pieces, chars]
  | branch position target outcome => simp [pieces, chars]

theorem notMem_toDigits {c : Char} (hc : c.isDigit = false) (n : Nat) :
    c ∉ Nat.toDigits 10 n := by
  intro hmem
  have hdigit := Nat.isDigit_of_mem_toDigits (by decide) (by decide) hmem
  rw [hc] at hdigit
  exact Bool.noConfusion hdigit

theorem toDigits_injective {m n : Nat} (h : Nat.toDigits 10 m = Nat.toDigits 10 n) : m = n := by
  have hvalue := congrArg (Nat.ofDigitChars 10 · 0) h
  simpa only [Nat.ofDigitChars_ten_toDigits] using hvalue

theorem newline_notMem_chars (l : CoverageLine) : '\n' ∉ l.chars := by
  have hdigits := notMem_toDigits (c := '\n') (by decide)
  cases l with
  | current hash => simp [chars, Bytes.notMem_hexDigits (c := '\n') (by decide)]
  | address position => exact hdigits position
  | branch position target outcome => simp [chars, hdigits]

/-- What stands before the first occurrence of a character is determined, and what stands after
it. -/
theorem append_cons_inj {c : Char} {xs ys us vs : List Char} (hxs : c ∉ xs) (hys : c ∉ ys)
    (h : xs ++ c :: us = ys ++ c :: vs) : xs = ys ∧ us = vs := by
  have hnil {as bs : List Char} {zs : List Char} (hzs : c ∉ zs) (hrest : c :: as = zs ++ c :: bs) :
      zs = [] ∧ as = bs := by
    cases zs with
    | nil => exact ⟨rfl, (List.cons.inj hrest).2⟩
    | cons z zs => exact absurd (List.cons.inj hrest).1 (List.ne_of_not_mem_cons hzs)
  rcases List.append_eq_append_iff.mp h with ⟨zs, rfl, hrest⟩ | ⟨zs, rfl, hrest⟩
  · obtain ⟨rfl, rfl⟩ := hnil (fun hmem ↦ hys (List.mem_append_right xs hmem)) hrest
    exact ⟨(List.append_nil xs).symm, rfl⟩
  · obtain ⟨rfl, rfl⟩ := hnil (fun hmem ↦ hxs (List.mem_append_right ys hmem)) hrest
    exact ⟨List.append_nil ys, rfl⟩

theorem chars_injective {k l : CoverageLine} (h : k.chars = l.chars) : k = l := by
  have hspace := notMem_toDigits (c := ' ') (by decide)
  have hx := notMem_toDigits (c := 'x') (by decide)
  have hcurrent (hash : Hash) : 'x' ∈ (current hash).chars := by simp [chars]
  have hbranch (position target outcome : Nat) : 'x' ∉ (branch position target outcome).chars := by
    simp [chars, hx]
  cases k with
  | current hash =>
    have hmem := hcurrent hash
    rw [h] at hmem
    cases l with
    | current other =>
      have hbytes := Bytes.hexDigits_injective (List.cons.inj (List.cons.inj h).2).2
      rw [List.reverse_inj] at hbytes
      obtain ⟨bytes, length_bytes⟩ := hash
      obtain ⟨bytes', length_bytes'⟩ := other
      subst hbytes
      rfl
    | address position => exact absurd hmem (hx position)
    | branch position target outcome => exact absurd hmem (hbranch position target outcome)
  | address position =>
    cases l with
    | current hash =>
      have hmem := hcurrent hash
      rw [← h] at hmem
      exact absurd hmem (hx position)
    | address other => rw [toDigits_injective h]
    | branch other target outcome =>
      have hmem : ' ' ∈ (address position).chars := by
        rw [h]
        simp [chars]
      exact absurd hmem (hspace position)
  | branch position target outcome =>
    cases l with
    | current hash =>
      have hmem := hcurrent hash
      rw [← h] at hmem
      exact absurd hmem (hbranch position target outcome)
    | address other =>
      have hmem : ' ' ∈ (address other).chars := by
        rw [← h]
        simp [chars]
      exact absurd hmem (hspace other)
    | branch position' target' outcome' =>
      obtain ⟨hposition, hrest⟩ := append_cons_inj (hspace _) (hspace _) h
      obtain ⟨htarget, houtcome⟩ := append_cons_inj (hspace _) (hspace _) hrest
      rw [toDigits_injective hposition, toDigits_injective htarget, toDigits_injective houtcome]

/-- The lines of a log are determined by its bytes. -/
theorem text_injective {ks ls : List CoverageLine} (h : text ks = text ls) : ks = ls := by
  have htext (ls : List CoverageLine) :
      text ls = Bytes.ofString (String.ofList (ls.flatMap fun l ↦ l.chars ++ ['\n'])) := by
    induction ls with
    | nil => rfl
    | cons l rest ih =>
      rw [List.flatMap_cons, String.ofList_append, Bytes.ofString_append, ← ih, ← bytes_eq]
      rfl
  rw [htext, htext] at h
  have hchars := String.ofList_injective (Bytes.ofString_injective h)
  clear h
  induction ks generalizing ls with
  | nil =>
    cases ls with
    | nil => rfl
    | cons l ls => simp at hchars
  | cons k ks ih =>
    cases ls with
    | nil => simp at hchars
    | cons l ls =>
      rw [List.flatMap_cons, List.flatMap_cons, List.append_assoc, List.append_assoc] at hchars
      obtain ⟨hline, hrest⟩ :=
        append_cons_inj k.newline_notMem_chars l.newline_notMem_chars hchars
      rw [chars_injective hline, ih hrest]

/-! ### Attribution -/

/-- The script that a hash line names. -/
def script? : CoverageLine → Option Hash
  | current hash => some hash
  | _ => none

/-- The script of the last hash line. -/
def lastScript? (lines : List CoverageLine) : Option Hash := (lines.filterMap script?).getLast?

/-- The number of lines that say that a position ran and have a hash as that of the nearest hash
line before them. -/
def attributed (hash : Hash) (position : Nat) (lines : List CoverageLine) : Nat :=
  (List.range lines.length).countP fun k ↦
    lines[k]? = some (address position) && lastScript? (lines.take k) = some hash

theorem attributed_append (hash : Hash) (position : Nat) (lines : List CoverageLine)
    (l : CoverageLine) : attributed hash position (lines ++ [l]) =
      attributed hash position lines +
        if l = address position ∧ lastScript? lines = some hash then 1 else 0 := by
  have hinit : (List.range lines.length).countP (fun k ↦
      (lines ++ [l])[k]? = some (address position) &&
        lastScript? ((lines ++ [l]).take k) = some hash) = attributed hash position lines := by
    refine List.countP_congr fun k hk ↦ ?_
    have hlt := List.mem_range.mp hk
    rw [List.getElem?_append_left hlt, List.take_append_of_le_length (Nat.le_of_lt hlt)]
  rw [attributed, List.length_append, List.length_singleton, List.range_succ, List.countP_append,
    hinit, List.countP_singleton]
  simp

example : attributed Hash.zero 3
    [.address 3, .current Hash.zero, .address 3, .address 5, .address 3] = 2 := by decide

theorem lastScript?_append (lines : List CoverageLine) (l : CoverageLine) :
    lastScript? (lines ++ [l]) = l.script?.or (lastScript? lines) := by
  cases l <;> simp [lastScript?, script?]

/-- The positions that ran, each with the script of the nearest hash line before it, which is
`last` until there is one. -/
def addressesFrom (last : Option Hash) : List CoverageLine → List (Option Hash × Nat)
  | [] => []
  | current hash :: rest => addressesFrom (some hash) rest
  | address position :: rest => (last, position) :: addressesFrom last rest
  | branch _ _ _ :: rest => addressesFrom last rest

/-- The positions that ran, each with the script of the nearest hash line before it. -/
def addresses (lines : List CoverageLine) : List (Option Hash × Nat) := addressesFrom none lines

/-- The position that a line says to have run. -/
def position? : CoverageLine → Option Nat
  | address position => some position
  | _ => none

theorem addressesFrom_append (last : Option Hash) (lines : List CoverageLine) (l : CoverageLine) :
    addressesFrom last (lines ++ [l]) = addressesFrom last lines ++
      (l.position?.map (Prod.mk ((lastScript? lines).or last))).toList := by
  induction lines generalizing last with
  | nil => cases l <;> rfl
  | cons k rest ih =>
    have hlast : (lastScript? (k :: rest)).or last = (lastScript? rest).or (k.script?.or last) := by
      cases k <;> simp [lastScript?, script?, List.getLast?_cons]
    rw [hlast, List.cons_append]
    cases k with
    | current hash => exact ih (some hash)
    | address position =>
      rw [addressesFrom, addressesFrom, ih]
      rfl
    | branch position target outcome => exact ih last

theorem addresses_append (lines : List CoverageLine) (l : CoverageLine) :
    addresses (lines ++ [l]) =
      addresses lines ++ (l.position?.map (Prod.mk (lastScript? lines))).toList := by
  rw [addresses, addressesFrom_append, Option.or_none]
  rfl

example : addresses [.address 3, .current Hash.zero, .address 3, .branch 3 5 5, .address 5] =
    [(none, 3), (some Hash.zero, 3), (some Hash.zero, 5)] := by decide

end CoverageLine

end ScriptTrace
