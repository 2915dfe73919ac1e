import Mathlib.Data.List.Infix
import ScriptTrace.Proofs.Act
import ScriptTrace.Storage.Pipe

/-!
Writers with room for so many bytes. `Writer.Bounded` says of a writer that it takes what fits,
fills its room with the front part of the first write that does not fit, and refuses everything from
then on. A pipe is such a writer (`Pipe.bounded`), and so is a device that takes each write in
pieces and refuses bytes with an error or by taking none (`Device.bounded`).
-/

set_option autoImplicit false
set_option relaxedAutoImplicit false

namespace ScriptTrace

/-! ### Byte strings that fit together -/

/-- How many byte strings from the front of a list fit together into so many bytes. -/
def Bytes.fitting : Nat → List Bytes → Nat
  | _, [] => 0
  | left, bs :: rest => if bs.length ≤ left then fitting (left - bs.length) rest + 1 else 0

namespace Bytes

theorem fitting_le_length (left : Nat) (pieces : List Bytes) :
    fitting left pieces ≤ pieces.length := by
  fun_induction fitting left pieces with
  | case1 => exact Nat.le_refl 0
  | case2 left bs rest hfits ih => exact Nat.succ_le_succ ih
  | case3 => exact Nat.zero_le _

theorem fitting_zero {pieces : List Bytes} (h : ∀ bs ∈ pieces, bs ≠ []) : fitting 0 pieces = 0 := by
  cases pieces with
  | nil => rfl
  | cons bs rest =>
    have hpos := List.length_pos_iff.mpr (h bs (.head rest))
    rw [fitting, if_neg (Nat.not_le_of_lt hpos)]

/-- So many pieces from the front fit, and no more. -/
theorem length_flatten_take_le_iff {left count : Nat} {pieces : List Bytes}
    (hcount : count ≤ pieces.length) :
    (pieces.take count).flatten.length ≤ left ↔ count ≤ fitting left pieces := by
  fun_induction fitting left pieces generalizing count with
  | case1 left =>
    obtain rfl : count = 0 := Nat.le_zero.mp hcount
    simp
  | case2 left bs rest hfits ih =>
    cases count with
    | zero => simp
    | succ count =>
      have hrest := ih (Nat.le_of_succ_le_succ hcount)
      rw [List.take_succ_cons, List.flatten_cons, List.length_append]
      omega
  | case3 left bs rest hexceeds =>
    cases count with
    | zero => simp
    | succ count =>
      rw [List.take_succ_cons, List.flatten_cons, List.length_append]
      omega

/-- So many bytes of pieces in a row are the pieces that fit and a part of the next one. -/
theorem exists_take_flatten (left : Nat) (pieces : List Bytes) :
    ∃ part, pieces.flatten.take left = (pieces.take (fitting left pieces)).flatten ++ part ∧
      (part = [] ∨ ∃ bs, pieces[fitting left pieces]? = some bs ∧ part <+: bs ∧ part ≠ bs) := by
  fun_induction fitting left pieces with
  | case1 left => exact ⟨[], by simp, .inl rfl⟩
  | case2 left bs rest hfits ih =>
    obtain ⟨part, htake, hpart⟩ := ih
    refine ⟨part, ?_, by rwa [List.getElem?_cons_succ]⟩
    rw [List.flatten_cons, List.take_append, List.take_of_length_le hfits, htake,
      List.take_succ_cons, List.flatten_cons, List.append_assoc]
  | case3 left bs rest hexceeds =>
    have hle : left ≤ bs.length := by omega
    refine ⟨bs.take left, ?_, .inr ⟨bs, rfl, List.take_prefix left bs, fun heq ↦ ?_⟩⟩
    · rw [List.flatten_cons, List.take_append_of_le_length hle]
      rfl
    · have hlength := congrArg List.length heq
      rw [List.length_take_of_le hle] at hlength
      omega

/-- The bytes stop between two pieces only behind those that fit. -/
theorem exists_take_flatten_eq_iff (left : Nat) (pieces : List Bytes) :
    (∃ count, pieces.flatten.take left = (pieces.take count).flatten) ↔
      pieces.flatten.take left = (pieces.take (fitting left pieces)).flatten := by
  refine ⟨fun ⟨count, hcount⟩ ↦ ?_, fun heq ↦ ⟨_, heq⟩⟩
  obtain ⟨part, htake, -⟩ := exists_take_flatten left pieces
  obtain ⟨n, hn, heq⟩ : ∃ n ≤ pieces.length, pieces.take count = pieces.take n :=
    ⟨min count pieces.length, Nat.min_le_right _ _, (List.take_eq_take_min ..)⟩
  rw [heq] at hcount
  have hfits : (pieces.take n).flatten.length ≤ left := by
    rw [← hcount]
    exact List.length_take_le left _
  have hle : n ≤ fitting left pieces := (length_flatten_take_le_iff hn).mp hfits
  have hbegins : (pieces.take n).flatten <+: (pieces.take (fitting left pieces)).flatten :=
    (List.take_prefix_take_left hle).flatten
  have hlength := congrArg List.length (hcount.symm.trans htake)
  rw [List.length_append] at hlength
  rw [hcount]
  exact hbegins.eq_of_length (Nat.le_antisymm hbegins.length_le (by omega))

end Bytes

/-! ### Writers -/

/-- What a writer that is ready has taken and how much room it has left, without a number if there
is no end. -/
structure Writer.Bounded {τ : Type} (w : Writer τ) (ready : τ → Prop) (taken : τ → Bytes)
    (room : τ → Option Nat) : Prop where
  /-- A write that fits is taken. -/
  fits : ∀ bs t, ready t → (∀ left ∈ room t, bs.length ≤ left) → ∃ t', w.write bs t = .ok () t' ∧
    ready t' ∧ taken t' = taken t ++ bs ∧ room t' = (room t).map (· - bs.length)
  /-- Of any other write the front part that fits is taken, and the write fails. -/
  exceeds : ∀ bs t left, ready t → room t = some left → left < bs.length → ∃ e t',
    w.write bs t = .error e t' ∧ ready t' ∧ taken t' = taken t ++ bs.take left ∧ room t' = some 0

/-- A writer that is ready takes every write and flushes without failing. -/
structure Writer.Unlimited {τ : Type} (w : Writer τ) (ready : τ → Prop) (taken : τ → Bytes) :
    Prop where
  write : ∀ bs t, ready t → ∃ t', w.write bs t = .ok () t' ∧ ready t' ∧ taken t' = taken t ++ bs
  flush : ∀ t, ready t → ∃ t', w.flush t = .ok () t' ∧ ready t' ∧ taken t' = taken t

theorem Writer.Unlimited.bounded {τ : Type} {w : Writer τ} {ready : τ → Prop} {taken : τ → Bytes}
    (hw : w.Unlimited ready taken) : w.Bounded ready taken fun _ ↦ none where
  fits bs t hready _ := by
    obtain ⟨t', hwrite, hready', htaken⟩ := hw.write bs t hready
    exact ⟨t', hwrite, hready', htaken, rfl⟩
  exceeds _ _ _ _ hroom := nomatch hroom

/-! ### Quotas and pipes -/

namespace Quota

/-- The room that a quota leaves. -/
def room (quota : Option Quota) : Option Nat := quota.map (·.left)

theorem grant_of_fits {quota : Option Quota} {bs : Bytes}
    (h : ∀ left ∈ room quota, bs.length ≤ left) :
    ∃ quota', grant quota bs = (bs, quota', none) ∧
      room quota' = (room quota).map (· - bs.length) := by
  cases quota with
  | none => exact ⟨none, rfl, rfl⟩
  | some q => exact ⟨_, by rw [grant, if_pos (h q.left rfl)], rfl⟩

theorem grant_of_exceeds {quota : Option Quota} {bs : Bytes} {left : Nat}
    (hroom : room quota = some left) (hlt : left < bs.length) :
    ∃ quota' e, grant quota bs = (bs.take left, quota', some e) ∧ room quota' = some 0 := by
  obtain ⟨q, rfl, rfl⟩ := Option.map_eq_some_iff.mp hroom
  exact ⟨_, q.error, by rw [grant, if_neg (Nat.not_le_of_lt hlt)], rfl⟩

end Quota

theorem Pipe.bounded :
    Pipe.writer.Bounded (fun _ ↦ True) Pipe.taken fun p ↦ Quota.room p.quota where
  fits bs p _ hfits := by
    obtain ⟨quota, hgrant, hroom⟩ := Quota.grant_of_fits hfits
    exact ⟨{ p with taken := p.taken ++ bs, quota := quota },
      by simp only [writer, write, hgrant], trivial, rfl, hroom⟩
  exceeds bs p left _ hroom hlt := by
    obtain ⟨quota, e, hgrant, hzero⟩ := Quota.grant_of_exceeds hroom hlt
    exact ⟨e, { p with taken := p.taken ++ bs.take left, quota := quota },
      by simp only [writer, write, hgrant], trivial, rfl, hzero⟩

/-- A pipe without a quota, whose flushes do not fail. -/
theorem Pipe.takesAll : Pipe.writer.Unlimited (fun p ↦ p.quota = none ∧ p.flushError = none)
    Pipe.taken where
  write bs p hready := by
    refine ⟨{ p with taken := p.taken ++ bs, quota := none }, ?_, ⟨rfl, hready.2⟩, rfl⟩
    simp only [writer, write, hready.1, Quota.grant]
  flush p hready := by
    refine ⟨{ p with flushes := p.flushes + 1 }, ?_, hready, rfl⟩
    simp only [writer, flush, hready.2]

/-! ### Devices that take bytes in pieces -/

/-- A stream that takes so many bytes in all, a piece at each call, and from then on fails or takes
nothing. -/
structure Device where
  taken : Bytes
  left : Nat
  /-- The call of each number takes at most one byte more than this. -/
  sizes : Nat → Nat
  calls : Nat
  /-- The failure of calls when no byte is left; without one they take nothing. -/
  refusal : Option IoError

namespace Device

/-- One call, answered with the number of bytes taken from the front. -/
def accept (bs : Bytes) : IoAct Device Nat := fun d ↦
  let called := { d with calls := d.calls + 1 }
  if d.left = 0 then
    match d.refusal with
    | none => .ok 0 called
    | some e => .error e called
  else
    let size := min bs.length (min d.left (d.sizes d.calls + 1))
    .ok size { called with taken := d.taken ++ bs.take size, left := d.left - size }

/-- Calls for the rest of a write, until there is none or a call takes nothing of it. -/
def writeAll (bs : Bytes) : IoAct Device Unit :=
  if _hnil : bs = [] then pure ()
  else do
    let size ← accept bs
    if _hsize : size = 0 then throw .writeZero else writeAll (bs.drop size)
termination_by bs.length
decreasing_by
  have hpos := List.length_pos_iff.mpr _hnil
  rw [List.length_drop]
  omega

/-- A device as a writer. -/
def writer : Writer Device := ⟨writeAll, pure ()⟩

theorem exists_accept {bs : Bytes} (hnil : bs ≠ []) {d : Device} (hleft : d.left ≠ 0) :
    ∃ size d', 0 < size ∧ size ≤ bs.length ∧ size ≤ d.left ∧ accept bs d = .ok size d' ∧
      d'.taken = d.taken ++ bs.take size ∧ d'.left = d.left - size := by
  have hpos := List.length_pos_iff.mpr hnil
  let size := min bs.length (min d.left (d.sizes d.calls + 1))
  refine ⟨size, { d with
    calls := d.calls + 1, taken := d.taken ++ bs.take size, left := d.left - size },
    by omega, by omega, by omega, ?_, rfl, rfl⟩
  rw [accept, if_neg hleft]

/-- Going on with a write after a call that took some bytes. -/
theorem writeAll_of_accept {bs : Bytes} (hnil : bs ≠ []) {size : Nat} (hsize : 0 < size)
    {d d' : Device} (haccept : accept bs d = .ok size d') :
    writeAll bs d = writeAll (bs.drop size) d' := by
  rw [writeAll, dif_neg hnil, bind_ok haccept, dif_neg (Nat.ne_of_gt hsize)]

theorem writeAll_of_le (bs : Bytes) (d : Device) (hfits : bs.length ≤ d.left) :
    ∃ d', writeAll bs d = .ok () d' ∧ d'.taken = d.taken ++ bs ∧
      d'.left = d.left - bs.length := by
  by_cases hnil : bs = []
  · subst hnil
    exact ⟨d, by rw [writeAll, dif_pos rfl]; rfl, (List.append_nil _).symm, rfl⟩
  · have hpos := List.length_pos_iff.mpr hnil
    obtain ⟨size, d₁, hsize, hle, -, haccept, htaken₁, hleft₁⟩ :=
      exists_accept hnil (d := d) (by omega)
    have hlength : (bs.drop size).length = bs.length - size := List.length_drop
    obtain ⟨d', hwrite, htaken, hleft⟩ := writeAll_of_le (bs.drop size) d₁ (by omega)
    refine ⟨d', (writeAll_of_accept hnil hsize haccept).trans hwrite, ?_, by omega⟩
    rw [htaken, htaken₁, List.append_assoc, List.take_append_drop]
termination_by bs.length

theorem writeAll_of_lt (bs : Bytes) (d : Device) (hexceeds : d.left < bs.length) :
    ∃ e d', writeAll bs d = .error e d' ∧ d'.taken = d.taken ++ bs.take d.left ∧
      d'.left = 0 := by
  have hnil : bs ≠ [] := List.ne_nil_of_length_pos (by omega)
  by_cases hleft : d.left = 0
  · rw [hleft, List.take_zero, List.append_nil]
    cases hrefusal : d.refusal with
    | none =>
      have haccept : accept bs d = .ok 0 { d with calls := d.calls + 1 } := by
        rw [accept, if_pos hleft, hrefusal]
      refine ⟨.writeZero, { d with calls := d.calls + 1 }, ?_, rfl, hleft⟩
      rw [writeAll, dif_neg hnil, bind_ok haccept, dif_pos rfl]
      rfl
    | some e =>
      have haccept : accept bs d = .error e { d with calls := d.calls + 1 } := by
        rw [accept, if_pos hleft, hrefusal]
      refine ⟨e, { d with calls := d.calls + 1 }, ?_, rfl, hleft⟩
      rw [writeAll, dif_neg hnil, bind_error haccept]
  · obtain ⟨size, d₁, hsize, -, hle, haccept, htaken₁, hleft₁⟩ := exists_accept hnil hleft
    have hlength : (bs.drop size).length = bs.length - size := List.length_drop
    obtain ⟨e, d', hwrite, htaken, hzero⟩ := writeAll_of_lt (bs.drop size) d₁ (by omega)
    refine ⟨e, d', (writeAll_of_accept hnil hsize haccept).trans hwrite, ?_, hzero⟩
    rw [htaken, htaken₁, hleft₁, List.append_assoc, ← List.take_add, Nat.add_sub_cancel' hle]
termination_by bs.length

theorem bounded : writer.Bounded (fun _ ↦ True) Device.taken fun d ↦ some d.left where
  fits bs d _ hfits := by
    obtain ⟨d', hwrite, htaken, hleft⟩ := writeAll_of_le bs d (hfits d.left rfl)
    exact ⟨d', hwrite, trivial, htaken, congrArg some hleft⟩
  exceeds bs d left _ hroom hlt := by
    obtain rfl : d.left = left := Option.some.inj hroom
    obtain ⟨e, d', hwrite, htaken, hzero⟩ := writeAll_of_lt bs d hlt
    exact ⟨e, d', hwrite, trivial, htaken, congrArg some hzero⟩

end Device

end ScriptTrace
