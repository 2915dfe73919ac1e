import ScriptTrace.Proofs.Codec.Writing

/-!
When a record has an encoding. `Record.Fits` says that every text, byte string, integer payload and
collection in a record has fewer than `2 ^ 32` elements. Of such a record exactly one thing can go
wrong: an item that lies more than `maxItemDepth` levels deep (`encodable_fields`). An item directly
in a list is at level one; elements, keys and values are one level below their container.
-/

set_option autoImplicit false
set_option relaxedAutoImplicit false

namespace ScriptTrace

namespace Item

mutual

/-- Every text, byte string, integer payload and collection in an item fits a 32-bit length. -/
def Fits : Item → Prop
  | integer value => (Bytes.ofInt value).length < 2 ^ 32
  | byteString bs => bs.length < 2 ^ 32
  | buffer bs => bs.length < 2 ^ 32
  | array items => items.length < 2 ^ 32 ∧ FitsList items
  | struct items => items.length < 2 ^ 32 ∧ FitsList items
  | map entries => entries.length < 2 ^ 32 ∧ FitsEntries entries
  | interop typeName => (Bytes.ofString typeName).length < 2 ^ 32
  | _ => True

/-- The lengths in every item of a list fit. -/
def FitsList : List Item → Prop
  | [] => True
  | x :: rest => x.Fits ∧ FitsList rest

/-- The lengths in every key and value fit. -/
def FitsEntries : List (Item × Item) → Prop
  | [] => True
  | (key, value) :: rest => key.Fits ∧ value.Fits ∧ FitsEntries rest

end

theorem fits_of_mem {items : List Item} (h : FitsList items) {x : Item} (hx : x ∈ items) :
    x.Fits := by
  induction items with
  | nil => simp at hx
  | cons y rest ih =>
    obtain ⟨hy, hrest⟩ := h
    rcases List.mem_cons.mp hx with rfl | hmem
    · exact hy
    · exact ih hrest hmem

theorem fits_of_mem_entries {entries : List (Item × Item)} (h : FitsEntries entries)
    {e : Item × Item} (he : e ∈ entries) : e.1.Fits ∧ e.2.Fits := by
  induction entries with
  | nil => simp at he
  | cons entry rest ih =>
    obtain ⟨hkey, hvalue, hrest⟩ := h
    rcases List.mem_cons.mp he with rfl | hmem
    · exact ⟨hkey, hvalue⟩
    · exact ih hrest hmem

theorem depthList_le_iff (items : List Item) (room : Nat) :
    depthList items ≤ room ↔ ∀ x ∈ items, x.depth ≤ room := by
  induction items with
  | nil => simp [depthList]
  | cons x rest ih => rw [depthList, Nat.max_le, ih, List.forall_mem_cons]

theorem depthEntries_le_iff (entries : List (Item × Item)) (room : Nat) :
    depthEntries entries ≤ room ↔ ∀ e ∈ entries, e.1.depth ≤ room ∧ e.2.depth ≤ room := by
  induction entries with
  | nil => simp [depthEntries]
  | cons e rest ih => rw [depthEntries, Nat.max_le, Nat.max_le, ih, List.forall_mem_cons]

theorem one_le_depth (x : Item) : 1 ≤ x.depth := by
  cases x <;> simp [depth]

end Item

/-- The items directly in the lists of a frame. -/
def FrameRecord.items (f : FrameRecord) : List Item :=
  f.evaluationStack ++ f.localVariables ++ f.staticFields ++ f.arguments

/-- The items directly in the lists of a record. -/
def Record.items : Record → List Item
  | .trace _ frames => frames.flatMap FrameRecord.items
  | .notify _ _ state => state
  | .results _ _ stack => stack
  | _ => []

/-- A list of items fits as a list and in each of its items. -/
def FitsStack (items : List Item) : Prop := items.length < 2 ^ 32 ∧ Item.FitsList items

/-- Every collection in a frame fits a 32-bit length. -/
structure FrameRecord.Fits (f : FrameRecord) : Prop where
  evaluationStack : FitsStack f.evaluationStack
  localVariables : FitsStack f.localVariables
  staticFields : FitsStack f.staticFields
  arguments : FitsStack f.arguments

/-- Every text, byte string, integer payload and collection in a record fits a 32-bit length. -/
def Record.Fits : Record → Prop
  | .trace _ frames => frames.length < 2 ^ 32 ∧ ∀ f ∈ frames, f.Fits
  | .notify _ eventName state => (Bytes.ofString eventName).length < 2 ^ 32 ∧ FitsStack state
  | .log _ message => (Bytes.ofString message).length < 2 ^ 32
  | .results _ _ stack => FitsStack stack
  | .fault exception => (Bytes.ofString exception).length < 2 ^ 32
  | .script _ code => code.length < 2 ^ 32
  | .storage _ entries =>
    entries.length < 2 ^ 32 ∧ ∀ e ∈ entries, e.key.length < 2 ^ 32 ∧ e.value.length < 2 ^ 32
  | .settings _ _ => True

/-- A part of an encoder that succeeds under a condition on depth and else says it is too deep. -/
structure Encodable (shallow : Prop) (x : Except Malformed Bytes) : Prop where
  ok : shallow → ∃ bs, x = .ok bs
  tooDeep : ¬ shallow → x = .error .tooDeep

namespace Encodable

variable {P Q : Prop} {x : Except Malformed Bytes}

theorem pure (bs : Bytes) : Encodable True (.ok bs) := ⟨fun _ ↦ ⟨bs, rfl⟩, (absurd trivial ·)⟩

theorem congr (hx : Encodable P x) (h : P ↔ Q) : Encodable Q x :=
  ⟨fun hq ↦ hx.ok (h.mpr hq), fun hq ↦ hx.tooDeep fun hp ↦ hq (h.mp hp)⟩

theorem bind (hx : Encodable P x) {next : Bytes → Except Malformed Bytes}
    (hnext : ∀ bs, Encodable Q (next bs)) : Encodable (P ∧ Q) (x >>= next) where
  ok := by
    rintro ⟨hp, hq⟩
    obtain ⟨bs, rfl⟩ := hx.ok hp
    exact (hnext bs).ok hq
  tooDeep := by
    intro hnot
    by_cases hp : P
    · obtain ⟨bs, rfl⟩ := hx.ok hp
      exact (hnext bs).tooDeep fun hq ↦ hnot ⟨hp, hq⟩
    · rw [hx.tooDeep hp]
      rfl

/-- A last step that always succeeds. -/
theorem map (hx : Encodable P x) (f : Bytes → Bytes) : Encodable P (do return f (← x)) :=
  (hx.bind fun bs ↦ pure (f bs)).congr (iff_of_eq (and_true P))

theorem concat {α : Type} {shallow : α → Prop} {write : α → Except Malformed Bytes} {xs : List α}
    (h : ∀ x ∈ xs, Encodable (shallow x) (write x)) :
    Encodable (∀ x ∈ xs, shallow x) (Encoder.concat write xs) := by
  induction xs with
  | nil => exact (pure []).congr (by simp)
  | cons x rest ih =>
    have hrest := ih fun y hy ↦ h y (.tail x hy)
    exact ((h x (.head rest)).bind fun bs ↦ hrest.map (bs ++ ·)).congr List.forall_mem_cons.symm

end Encodable

theorem encodable_length {n : Nat} (hn : n < 2 ^ 32) : Encodable True (Encoder.length n) := by
  rw [Encoder.length, if_pos (show n < UInt32.size from hn)]
  exact .pure _

theorem encodable_blob {bs : Bytes} (h : bs.length < 2 ^ 32) : Encodable True (Encoder.blob bs) :=
  (encodable_length h).map (· ++ bs)

theorem encodable_list {α : Type} {shallow : α → Prop} {write : α → Except Malformed Bytes}
    {xs : List α} (hlength : xs.length < 2 ^ 32) (h : ∀ x ∈ xs, Encodable (shallow x) (write x)) :
    Encodable (∀ x ∈ xs, shallow x) (Encoder.list write xs) :=
  ((encodable_length hlength).bind fun bs ↦ (Encodable.concat h).map (bs ++ ·)).congr
    (iff_of_eq (true_and _))

/-- An item without items in it has depth 1. -/
theorem encodable_leaf (b : UInt8) {room n : Nat} {x : Except Malformed Bytes}
    (hx : Encodable True x) (hn : n = 1) : Encodable (n ≤ room + 1) (do return b :: (← x)) :=
  (hx.map (b :: ·)).congr (by simp [hn])

/-- Assumes: items are encodable up to some depth. A list of them is then up to one more. -/
theorem encodable_items {room : Nat}
    (hitem : ∀ x : Item, x.Fits → Encodable (x.depth ≤ room) (Encoder.item room x)) (b : UInt8)
    {xs : List Item} (hxs : xs.length < 2 ^ 32 ∧ Item.FitsList xs) :
    Encodable (Item.depthList xs + 1 ≤ room + 1)
      (do return b :: (← Encoder.length xs.length) ++ (← Encoder.items room xs)) := by
  rw [Nat.add_le_add_iff_right, Item.depthList_le_iff, items_eq_concat]
  refine ((encodable_length hxs.1).bind fun bs ↦ ?_).congr (iff_of_eq (true_and _))
  exact (Encodable.concat fun y hy ↦ hitem y (Item.fits_of_mem hxs.2 hy)).map (b :: bs ++ ·)

/-- Items and parts of items are encodable up to their depth. -/
theorem encodable_item (room : Nat) {x : Item} (hx : x.Fits) :
    Encodable (x.depth ≤ room) (Encoder.item room x) := by
  induction room generalizing x with
  | zero =>
    have hdepth := x.one_le_depth
    rw [Encoder.item]
    exact ⟨fun hle ↦ absurd hle (by omega), fun _ ↦ rfl⟩
  | succ room ih =>
    cases x with
    | null =>
      rw [Encoder.item]
      exact (Encodable.pure _).congr (by simp [Item.depth])
    | pointer position =>
      rw [Encoder.item]
      exact (Encodable.pure _).congr (by simp [Item.depth])
    | boolean value =>
      rw [Encoder.item]
      exact (Encodable.pure _).congr (by simp [Item.depth])
    | integer value =>
      rw [Encoder.item]
      exact encodable_leaf 0x21 (encodable_blob hx) rfl
    | byteString bs =>
      rw [Encoder.item]
      exact encodable_leaf 0x28 (encodable_blob hx) rfl
    | buffer bs =>
      rw [Encoder.item]
      exact encodable_leaf 0x30 (encodable_blob hx) rfl
    | array items =>
      rw [Encoder.item]
      exact encodable_items (fun _ ↦ ih) 0x40 hx
    | struct items =>
      rw [Encoder.item]
      exact encodable_items (fun _ ↦ ih) 0x41 hx
    | map entries =>
      rw [Encoder.item, entries_eq_concat]
      simp only [Item.depth, Nat.add_le_add_iff_right]
      rw [Item.depthEntries_le_iff]
      refine ((encodable_length hx.1).bind fun bs ↦ ?_).congr (iff_of_eq (true_and _))
      refine (Encodable.concat fun e he ↦ ?_).map (0x48 :: bs ++ ·)
      have hfits := Item.fits_of_mem_entries hx.2 he
      exact (ih hfits.1).bind fun cs ↦ (ih hfits.2).map (cs ++ ·)
    | interop typeName =>
      rw [Encoder.item]
      exact encodable_leaf 0x60 (encodable_blob hx) rfl

theorem encodable_stack {xs : List Item} (hxs : FitsStack xs) :
    Encodable (∀ x ∈ xs, x.depth ≤ maxItemDepth) (Encoder.stack xs) := by
  rw [Encoder.stack, items_eq_concat]
  exact encodable_list hxs.1 fun x hx ↦ encodable_item _ (Item.fits_of_mem hxs.2 hx)

theorem encodable_frame {f : FrameRecord} (hf : f.Fits) :
    Encodable (∀ x ∈ f.items, x.depth ≤ maxItemDepth) (Encoder.frame f) := by
  unfold Encoder.frame
  refine ((encodable_stack hf.evaluationStack).bind fun bs ↦
    (encodable_stack hf.localVariables).bind fun cs ↦
      (encodable_stack hf.staticFields).bind fun ds ↦
        (encodable_stack hf.arguments).map _).congr ?_
  simp only [FrameRecord.items, List.mem_append, or_imp, forall_and, and_assoc]

theorem encodable_entry {e : StorageEntry} (hkey : e.key.length < 2 ^ 32)
    (hvalue : e.value.length < 2 ^ 32) : Encodable True (Encoder.entry e) :=
  ((encodable_blob hkey).bind fun bs ↦ (encodable_blob hvalue).map (bs ++ ·)).congr
    (iff_of_eq (true_and True))

theorem encodable_fields {r : Record} (hr : r.Fits) :
    Encodable (∀ x ∈ r.items, x.depth ≤ maxItemDepth) (Encoder.fields r) := by
  cases r with
  | trace state frames =>
    refine ((encodable_list hr.1 fun f hf ↦ encodable_frame (hr.2 f hf)).map _).congr ?_
    simp only [Record.items, List.mem_flatMap]
    exact ⟨fun h x ⟨f, hf, hx⟩ ↦ h f hf x hx, fun h f hf x hx ↦ h x ⟨f, hf, hx⟩⟩
  | notify hash eventName state =>
    exact ((encodable_blob hr.1).bind fun bs ↦ (encodable_stack hr.2).map _).congr
      (iff_of_eq (true_and _))
  | log hash message => exact ((encodable_blob hr).map _).congr (by simp [Record.items])
  | results state gas stack => exact (encodable_stack hr).map _
  | fault exception => exact (encodable_blob hr).congr (by simp [Record.items])
  | script hash code => exact ((encodable_blob hr).map _).congr (by simp [Record.items])
  | storage hash entries =>
    have hentries : Encodable (∀ e ∈ entries, True) (Encoder.list Encoder.entry entries) :=
      encodable_list hr.1 fun e he ↦ encodable_entry (hr.2 e he).1 (hr.2 e he).2
    exact (hentries.map _).congr (by simp [Record.items])
  | settings network addressVersion =>
    exact (Encodable.pure _).congr (by simp [Record.items])

end ScriptTrace
