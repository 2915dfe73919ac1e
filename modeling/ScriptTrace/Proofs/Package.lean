import Mathlib.Data.List.DropRight
import ScriptTrace.Proofs.Bytes.Fixed
import ScriptTrace.Script.Package

/-!
Packages read back. The format has no marks between its fields: where one ends follows from the
lengths in front of the texts and the code, which are numbers of four widths. A scan is given for
each field; that it gives back what was written, whatever follows (`Bytes.Reads`), is proved for the
numbers and the byte strings and put together along the package. A package is then told from any
other by its bytes, and none is the beginning of another.
-/

set_option autoImplicit false
set_option relaxedAutoImplicit false

namespace ScriptTrace

namespace Bytes

variable {α β : Type}

/-- A reading of the front of a byte string: a value and the bytes after it, or nothing. -/
abbrev Scan (α : Type) := StateT Bytes Option α

/-- The first `count` bytes, if there are so many. -/
def scanBytes (count : Nat) : Scan Bytes := fun bs ↦
  if count ≤ bs.length then some (bs.take count, bs.drop count) else none

/-- A number of `width` bytes. -/
def scanNat (width : Nat) : Scan Nat := toNat <$> scanBytes width

/-- What the first byte of a number of variable width stands for: the width of the number after it,
or itself. -/
def scanMarked (marker : Nat) : Scan Nat :=
  if marker = 0xFD then scanNat 2
  else if marker = 0xFE then scanNat 4
  else if marker = 0xFF then scanNat 8
  else pure marker

/-- A number of variable width. -/
def scanVarInt : Scan Nat := scanNat 1 >>= scanMarked

/-- A length and that many bytes. -/
def scanVarBytes : Scan Bytes := scanVarInt >>= scanBytes

/-- These bytes and no others. -/
def scanExactly (expected : Bytes) : Scan Unit := do
  let found ← scanBytes expected.length
  if found = expected then pure () else failure

/-- The text with these bytes, if they are UTF-8. -/
def scanText (bs : Bytes) : Scan String := StateT.lift (toString? bs)

/-- The scan gives `a` for the bytes `bs` and leaves what follows them, whatever that is. -/
def Reads (scan : Scan α) (bs : Bytes) (a : α) : Prop :=
  ∀ rest, scan (bs ++ rest) = some (a, rest)

theorem Reads.pure (a : α) : Reads (pure a) [] a := fun _ ↦ rfl

theorem Reads.bind {scan : Scan α} {next : α → Scan β} {bs cs : Bytes} {a : α} {b : β}
    (hscan : Reads scan bs a) (hnext : Reads (next a) cs b) :
    Reads (scan >>= next) (bs ++ cs) b := by
  intro rest
  show (scan (bs ++ cs ++ rest)).bind (fun r ↦ next r.1 r.2) = some (b, rest)
  rw [List.append_assoc, hscan]
  exact hnext rest

theorem Reads.map {scan : Scan α} {bs : Bytes} {a : α} (f : α → β) (hscan : Reads scan bs a) :
    Reads (f <$> scan) bs (f a) := by
  intro rest
  show (scan (bs ++ rest)).bind (fun r ↦ some (f r.1, r.2)) = some (f a, rest)
  rw [hscan]
  rfl

/-- A scan that reads both of two byte strings, one of which begins the other, gives one value. -/
theorem Reads.eq_of_isPrefix {scan : Scan α} {bs cs : Bytes} {a b : α} (ha : Reads scan bs a)
    (hb : Reads scan cs b) (hbegins : bs <+: cs) : a = b := by
  obtain ⟨tail, rfl⟩ := hbegins
  have hvalues : some (a, tail) = some (b, []) := by
    rw [← ha tail, ← hb [], List.append_nil]
  exact (Prod.mk.inj (Option.some.inj hvalues)).1

theorem reads_scanBytes (bs : Bytes) : Reads (scanBytes bs.length) bs bs := by
  intro rest
  have hfits : bs.length ≤ (bs ++ rest).length := by simp
  rw [scanBytes, if_pos hfits, List.take_left, List.drop_left]

theorem reads_scanNat {width n : Nat} (hn : n < 256 ^ width) :
    Reads (scanNat width) (ofNat width n) n := by
  have hread := (reads_scanBytes (ofNat width n)).map toNat
  rwa [length_ofNat, toNat_ofNat, Nat.mod_eq_of_lt hn] at hread

theorem reads_scanExactly (bs : Bytes) : Reads (scanExactly bs) bs () := by
  have hfound : Reads (if bs = bs then pure () else failure) [] () := by
    rw [if_pos rfl]
    exact .pure ()
  have hread : Reads (scanExactly bs) (bs ++ []) () := (reads_scanBytes bs).bind hfound
  rwa [List.append_nil] at hread

theorem reads_scanText (s : String) : Reads (scanText (ofString s)) [] s := by
  intro rest
  show (toString? (ofString s)).bind (fun text ↦ some (text, rest)) = some (s, rest)
  rw [(toString?_eq_some_iff _ s).mpr rfl]
  rfl

theorem reads_scanVarInt {n : Nat} (hn : n < 256 ^ 8) : Reads scanVarInt (ofVarInt n) n := by
  -- The marker of a wider number is a number of one byte itself.
  have hmarked (marker : Nat) (hmarker : marker < 256 ^ 1) {width : Nat} (hwidth : n < 256 ^ width)
      (hscan : scanMarked marker = scanNat width) :
      Reads scanVarInt (ofNat 1 marker ++ ofNat width n) n :=
    (reads_scanNat hmarker).bind (hscan ▸ reads_scanNat hwidth)
  unfold ofVarInt
  split_ifs with hbyte hshort hlong
  · have hself : scanMarked n = pure n := by
      rw [scanMarked, if_neg (by omega), if_neg (by omega), if_neg (by omega)]
    have hfirst : Reads (scanNat 1) (ofNat 1 n) n := reads_scanNat (by omega)
    have hrest : Reads (scanMarked n) [] n := hself ▸ .pure n
    have hread := hfirst.bind hrest
    rwa [List.append_nil] at hread
  · exact hmarked 0xFD (by decide) (by omega) rfl
  · exact hmarked 0xFE (by decide) (by omega) rfl
  · exact hmarked 0xFF (by decide) hn rfl

theorem reads_scanVarBytes {bs : Bytes} (hlength : bs.length < 256 ^ 8) :
    Reads scanVarBytes (ofVarInt bs.length ++ bs) bs :=
  (reads_scanVarInt hlength).bind (reads_scanBytes bs)

end Bytes

namespace Package

/-- A package the format has room for: the name of the compiler fits in its field and does not end
in the zero the field is filled up with, and the lengths are 64-bit numbers, as lengths of strings
in memory are. -/
structure Storable (p : Package) : Prop where
  compiler_fits : (Bytes.ofString p.compiler).length ≤ compilerWidth
  compiler_ends : (Bytes.ofString p.compiler).getLast? ≠ some 0
  source_fits : (Bytes.ofString p.source).length < 2 ^ 64
  code_fits : p.code.length < 2 ^ 64

/-- The bytes of a compiler field in front of the zeros it is filled up with. -/
def unpadded (field : Bytes) : Bytes := field.rdropWhile (· = 0)

/-- The package at the front of a byte string. -/
def scan : Bytes.Scan Package := do
  Bytes.scanExactly (Bytes.ofUInt32 magic)
  let compiler ← Bytes.scanBytes compilerWidth >>= fun field ↦ Bytes.scanText (unpadded field)
  let source ← Bytes.scanVarBytes >>= Bytes.scanText
  Bytes.scanExactly [0, 0, 0, 0]
  let code ← Bytes.scanVarBytes
  let checksum ← Bytes.toUInt32 <$> Bytes.scanBytes 4
  pure ⟨compiler, source, code, checksum⟩

theorem unpadded_append_replicate {bs : Bytes} (hends : bs.getLast? ≠ some 0) (count : Nat) :
    unpadded (bs ++ List.replicate count 0) = bs := by
  induction count with
  | zero =>
    rw [List.replicate_zero, List.append_nil, unpadded, List.rdropWhile_eq_self_iff]
    intro hne hzero
    apply hends
    rw [List.getLast?_eq_some_getLast hne, of_decide_eq_true hzero]
  | succ count ih =>
    rw [List.replicate_succ', ← List.append_assoc, unpadded,
      List.rdropWhile_concat_pos _ _ _ (by simp)]
    exact ih

theorem length_compilerField (compiler : String) :
    (compilerField compiler).length = compilerWidth := by
  simp only [compilerField, List.length_append, List.length_replicate, List.length_take]
  omega

theorem unpadded_compilerField {p : Package} (hp : p.Storable) :
    unpadded (compilerField p.compiler) = Bytes.ofString p.compiler := by
  rw [compilerField, List.take_of_length_le hp.compiler_fits]
  exact unpadded_append_replicate hp.compiler_ends _

theorem reads_compilerField {p : Package} (hp : p.Storable) :
    Bytes.Reads (Bytes.scanBytes compilerWidth >>= fun field ↦ Bytes.scanText (unpadded field))
      (compilerField p.compiler) p.compiler := by
  have hfield := Bytes.reads_scanBytes (compilerField p.compiler)
  rw [length_compilerField] at hfield
  have htext :
      Bytes.Reads (Bytes.scanText (unpadded (compilerField p.compiler))) [] p.compiler := by
    rw [unpadded_compilerField hp]
    exact Bytes.reads_scanText p.compiler
  rw [← List.append_nil (compilerField p.compiler)]
  exact hfield.bind htext

theorem reads_source {p : Package} (hp : p.Storable) :
    Bytes.Reads (Bytes.scanVarBytes >>= Bytes.scanText) (varBytes (Bytes.ofString p.source))
      p.source := by
  rw [← List.append_nil (varBytes _)]
  exact (Bytes.reads_scanVarBytes hp.source_fits).bind (Bytes.reads_scanText p.source)

theorem reads_checksum (checksum : UInt32) :
    Bytes.Reads (Bytes.toUInt32 <$> Bytes.scanBytes 4) (Bytes.ofUInt32 checksum) checksum := by
  have hread := (Bytes.reads_scanBytes (Bytes.ofUInt32 checksum)).map Bytes.toUInt32
  rwa [Bytes.length_ofUInt32, Bytes.toUInt32_ofUInt32] at hread

theorem toBytes_eq (p : Package) :
    p.toBytes = Bytes.ofUInt32 magic ++ (compilerField p.compiler ++
      (varBytes (Bytes.ofString p.source) ++ ([0, 0, 0, 0] ++
        (varBytes p.code ++ (Bytes.ofUInt32 p.checksum ++ []))))) := by
  simp only [toBytes, body, List.append_assoc, List.append_nil]
  rfl

/-- Assumes: the format has room for the package. Its bytes are read as the package, and what
follows them is left. -/
theorem reads_toBytes {p : Package} (hp : p.Storable) : Bytes.Reads scan p.toBytes p := by
  rw [toBytes_eq]
  exact (Bytes.reads_scanExactly _).bind <| (reads_compilerField hp).bind <|
    (reads_source hp).bind <| (Bytes.reads_scanExactly [0, 0, 0, 0]).bind <|
    (Bytes.reads_scanVarBytes hp.code_fits).bind <| (reads_checksum p.checksum).bind <|
    Bytes.Reads.pure p

/-- The last four bytes of a package are its checksum, and the body is in front of them. -/
theorem take_toBytes (p : Package) :
    p.toBytes.take (p.toBytes.length - 4) = body p.compiler p.source p.code ∧
      p.toBytes.drop (p.toBytes.length - 4) = Bytes.ofUInt32 p.checksum := by
  have hlength : p.toBytes.length - 4 = (body p.compiler p.source p.code).length := by
    rw [toBytes, List.length_append, Bytes.length_ofUInt32, Nat.add_sub_cancel]
  rw [hlength, toBytes]
  exact ⟨List.take_left, List.drop_left⟩

/-- Assumes: the format has room for both packages.

The bytes of a package begin those of another only if the packages are the same, and a scan gives
the package back from them whatever follows. A package as built ends in four bytes, the checksum of
all the bytes in front of them. -/
theorem toBytes_self_delimiting {f g : Package} (hf : f.Storable) (hg : g.Storable) :
    (f.toBytes <+: g.toBytes ↔ f = g) ∧
    (∀ rest, scan (f.toBytes ++ rest) = some (f, rest)) ∧
    ∀ (compiler source : String) (code : Bytes),
      let bytes := (make compiler source code).toBytes
      let front := bytes.take (bytes.length - 4)
      let checksum := Bytes.toUInt32 ((sha256 (sha256 front)).take 4)
      bytes = front ++ Bytes.ofUInt32 checksum ∧
        (Bytes.ofUInt32 checksum).length = 4 ∧
        (make compiler source code).checksum = checksum := by
  refine ⟨⟨?_, ?_⟩, reads_toBytes hf, ?_⟩
  · exact (reads_toBytes hf).eq_of_isPrefix (reads_toBytes hg)
  · rintro rfl
    exact List.prefix_rfl
  · intro compiler source code
    dsimp only
    rw [(take_toBytes _).1]
    exact ⟨rfl, Bytes.length_ofUInt32 _, rfl⟩

/-- A package does not begin the package whose code goes on where its own ends. -/
theorem not_prefix_longer_code :
    ¬ (⟨"c 1.0", "", [0x11], 0⟩ : Package).toBytes <+:
      (⟨"c 1.0", "", [0x11, 0x40], 0⟩ : Package).toBytes := by
  have hf : (⟨"c 1.0", "", [0x11], 0⟩ : Package).Storable :=
    ⟨by decide, by decide, by decide, by decide⟩
  have hg : (⟨"c 1.0", "", [0x11, 0x40], 0⟩ : Package).Storable :=
    ⟨by decide, by decide, by decide, by decide⟩
  rw [(toBytes_self_delimiting hf hg).1]
  decide

end Package

end ScriptTrace
