import UserFace800.Control.Wire
import UserFace800.Store.Saver
/-!
# Loading the state file

`load_blob` refuses every file it cannot trust, since a file misread is unknown gains on
the outputs. It takes the size from the header, in cells for a file of the first version,
and turns cells to bytes in 32 bits: a count from 2^30 on can come out as a size the file
has. `load_exact` says it is right about every other file, and that it gives back what
`save_blob` wrote.
-/
open UserFace800.Lib UserFace800.Control

namespace UserFace800.Store

/-- The first version, whose size is in cells. -/
def kStateVersionCells : Word := 1

/-- The first 16 bytes of a state file. -/
structure StateHeader where
  magic : Word
  version : Word
  bytes : Word
  reserved : Word
  deriving DecidableEq

namespace StateHeader

/-- As the file has it, little-endian. -/
def image (h : StateHeader) : List Byte := le32 h.magic ++ le32 h.version ++ le32 h.bytes ++ le32 h.reserved

/-- The header at the start of a file. -/
def read (file : List Byte) : StateHeader := ⟨u32At file 0, u32At file 4, u32At file 8, u32At file 12⟩

/-- The payload's size as `load_blob` computes it. -/
def payload (h : StateHeader) : Word := if h.version = kStateVersionCells then h.bytes * 4 else h.bytes

/-- The size the header declares. -/
def declared (h : StateHeader) : ℕ := if h.version = kStateVersionCells then 4 * h.bytes.toNat else h.bytes.toNat

end StateHeader

/-! ## `load_blob` -/

/-- `fread`, a byte at a time: the first bytes of `data` become the next of the file,
`n` of them if there are as many. -/
def fread (file data : List Byte) (n : ℕ) : ℕ × List Byte :=
  ((file.take n).length, file.take n ++ data.drop (file.take n).length)

/-- What `load_blob` returns, and leaves in the buffer and in `*bytesOut`. -/
structure Loaded where
  version : Word
  data : List Byte
  bytesOut : Option Word
  deriving DecidableEq

/-- `bytesOut` may be null, and so may the file. -/
def loadBlob (file : Option (List Byte)) (data : List Byte) (cap : Word) (bytesOut : Option Word) : Loaded :=
  match file with
  | none => ⟨0, data, bytesOut⟩
  | some f =>
    let h := StateHeader.read f
    if 16 ≤ f.length ∧ h.magic = kStateMagic then
      if (h.version = kStateVersionCells ∨ h.version = kStateVersion) ∧ h.payload ≠ 0 ∧ h.payload ≤ cap then
        -- a short read has overwritten the buffer all the same
        let (n, data) := fread (f.drop 16) data h.payload.toNat
        if n = h.payload.toNat then ⟨h.version, data, bytesOut.map fun _ => h.payload⟩ else ⟨0, data, bytesOut⟩
      else ⟨0, data, bytesOut⟩
    else ⟨0, data, bytesOut⟩

/-- A file to be trusted: the magic, a version we know, and a payload that is not empty,
that fits the buffer and is all there. -/
structure Whole (f : List Byte) (cap : Word) : Prop where
  header : 16 ≤ f.length
  magic : (StateHeader.read f).magic = kStateMagic
  version : (StateHeader.read f).version = kStateVersionCells ∨ (StateHeader.read f).version = kStateVersion
  nonempty : (StateHeader.read f).declared ≠ 0
  cap : (StateHeader.read f).declared ≤ cap.toNat
  present : 16 + (StateHeader.read f).declared ≤ f.length

/-- A whole file is loaded as it declares itself, and no other. -/
structure LoadsExactly (file : Option (List Byte)) (data : List Byte) (cap : Word) (bytesOut : Option Word) : Prop where
  whole : ∀ f, file = some f → Whole f cap →
    let h := StateHeader.read f
    let r := loadBlob file data cap bytesOut
    r.version = h.version ∧ r.data = (f.drop 16).take h.declared ++ data.drop h.declared ∧
      r.bytesOut = bytesOut.map fun _ => BitVec.ofNat 32 h.declared
  refused : (∀ f, file = some f → ¬Whole f cap) →
    (loadBlob file data cap bytesOut).version = 0 ∧ (loadBlob file data cap bytesOut).bytesOut = bytesOut

/-- The cells of a file of the first version come to 2^32 bytes or more, and what is left
of them in 32 bits is a size that the buffer and the file have. -/
structure Wraps (f : List Byte) (cap : Word) : Prop where
  header : 16 ≤ f.length
  magic : (StateHeader.read f).magic = kStateMagic
  version : (StateHeader.read f).version = kStateVersionCells
  cells : 2 ^ 32 ≤ 4 * (StateHeader.read f).bytes.toNat
  nonempty : 4 * (StateHeader.read f).bytes.toNat % 2 ^ 32 ≠ 0
  cap : 4 * (StateHeader.read f).bytes.toNat % 2 ^ 32 ≤ cap.toNat
  present : 16 + 4 * (StateHeader.read f).bytes.toNat % 2 ^ 32 ≤ f.length

/-! ## `save_blob` -/

/-- What the calls into the C library return; `data` is how many bytes of the payload
`fwrite` took, and `flushed` how many reach the file where `fclose` fails. -/
structure SaveResults where
  fopen : Bool
  header : Bool
  data : ℕ
  fclose : Bool
  flushed : ℕ
  rename : Bool
  remove : Bool

/-- `StateHeader h`. -/
def savedHeader (data : List Byte) : StateHeader := ⟨kStateMagic, kStateVersion, BitVec.ofNat 32 data.length, 0⟩

/-- `save_blob` in one go, and whether it saved. -/
def saveBlob (fs : Files String Byte) (path : String) (data : List Byte) (r : SaveResults) : Files String Byte × Bool :=
  let tmp := path ++ ".tmp"
  let giveUp (fs : Files String Byte) : Files String Byte × Bool := (if r.remove then fs.remove tmp else fs, false)
  if r.fopen then
    let (fs, f) := fs.create tmp
    let f := if r.header then (f.put (savedHeader data).image).put (data.take r.data) else f
    -- `fclose` comes first, whatever was written
    let (fs, _) := fs.flush f (if r.fclose then f.buf.length else r.flushed)
    if r.header ∧ r.data = data.length ∧ r.fclose then
      match if r.rename then fs.rename tmp path else none with
      | some fs => (fs, true)
      | none => giveUp fs
    else giveUp fs
  else (fs, false)

/-! ## The header -/

theorem read_image (h : StateHeader) (rest : List Byte) : StateHeader.read (h.image ++ rest) = h := by
  simp only [StateHeader.read, StateHeader.image, le32, List.cons_append, List.nil_append, u32At_zero, u32At_cons,
    word32]

theorem image_length (h : StateHeader) : h.image.length = 16 := rfl

/-- The 32 bits hold the size modulo 2^32. -/
theorem payload_toNat (h : StateHeader) : h.payload.toNat = h.declared % 2 ^ 32 := by
  have hlt := h.bytes.isLt
  unfold StateHeader.payload StateHeader.declared
  split
  · rw [BitVec.toNat_mul, show (4 : Word).toNat = 4 from rfl, Nat.mul_comm]
  · exact (Nat.mod_eq_of_lt hlt).symm

theorem payload_ne_zero (h : StateHeader) : h.payload ≠ 0 ↔ h.declared % 2 ^ 32 ≠ 0 := by
  rw [← payload_toNat, ne_eq, ne_eq, ← BitVec.toNat_inj]
  rfl

/-! ## What is accepted -/

/-- The file passes every check of `load_blob`. -/
structure Accepted (f : List Byte) (cap : Word) : Prop where
  header : 16 ≤ f.length
  magic : (StateHeader.read f).magic = kStateMagic
  version : (StateHeader.read f).version = kStateVersionCells ∨ (StateHeader.read f).version = kStateVersion
  nonempty : (StateHeader.read f).declared % 2 ^ 32 ≠ 0
  cap : (StateHeader.read f).declared % 2 ^ 32 ≤ cap.toNat
  present : 16 + (StateHeader.read f).declared % 2 ^ 32 ≤ f.length

variable {f : List Byte} {data : List Byte} {cap : Word} {bytesOut : Option Word}

theorem fread_all {n : ℕ} (h : n ≤ f.length) (data : List Byte) : fread f data n = (n, f.take n ++ data.drop n) := by
  unfold fread
  rw [List.length_take, Nat.min_eq_left h]

theorem load_accepted (h : Accepted f cap) (data : List Byte) (bytesOut : Option Word) :
    loadBlob (some f) data cap bytesOut = ⟨(StateHeader.read f).version,
      (f.drop 16).take (StateHeader.read f).payload.toNat ++ data.drop (StateHeader.read f).payload.toNat,
      bytesOut.map fun _ => (StateHeader.read f).payload⟩ := by
  have hpayload := payload_toNat (StateHeader.read f)
  have hcap : (StateHeader.read f).payload ≤ cap := by
    rw [BitVec.le_def, hpayload]
    exact h.cap
  have hpresent : (StateHeader.read f).payload.toNat ≤ (f.drop 16).length := by
    rw [hpayload, List.length_drop]
    exact Nat.le_sub_of_add_le' h.present
  simp only [loadBlob]
  rw [if_pos ⟨h.header, h.magic⟩, if_pos ⟨h.version, (payload_ne_zero _).2 h.nonempty, hcap⟩, fread_all hpresent]
  exact if_pos rfl

theorem load_refused (h : ¬Accepted f cap) (data : List Byte) (bytesOut : Option Word) :
    (loadBlob (some f) data cap bytesOut).version = 0 ∧ (loadBlob (some f) data cap bytesOut).bytesOut = bytesOut := by
  simp only [loadBlob]
  split
  · rename_i hheader
    split
    · rename_i hsize
      obtain ⟨hversion, hnonempty, hcap⟩ := hsize
      rw [BitVec.le_def, payload_toNat] at hcap
      -- only the bytes can be missing
      have hshort : (f.drop 16).length < (StateHeader.read f).payload.toNat := by
        by_contra hle
        rw [payload_toNat, List.length_drop] at hle
        exact h ⟨hheader.1, hheader.2, hversion, (payload_ne_zero _).1 hnonempty, hcap, by omega⟩
      have hn : (fread (f.drop 16) data (StateHeader.read f).payload.toNat).1 ≠ (StateHeader.read f).payload.toNat := by
        unfold fread
        rw [List.length_take]
        omega
      rw [if_neg hn]
      exact ⟨rfl, rfl⟩
    · exact ⟨rfl, rfl⟩
  · exact ⟨rfl, rfl⟩

/-- A whole file is accepted; of the others, those whose size wraps. -/
theorem accepted_iff : Accepted f cap ↔ Whole f cap ∨ Wraps f cap := by
  have hcap := cap.isLt
  constructor
  · intro h
    by_cases hlt : (StateHeader.read f).declared < 2 ^ 32
    · have hmod := Nat.mod_eq_of_lt hlt
      exact .inl ⟨h.header, h.magic, h.version, hmod ▸ h.nonempty, hmod ▸ h.cap, hmod ▸ h.present⟩
    · -- a count of bytes is below 2^32, so this is one of cells
      have hbytes := (StateHeader.read f).bytes.isLt
      have hcells : (StateHeader.read f).version = kStateVersionCells := by
        by_contra hno
        unfold StateHeader.declared at hlt
        rw [if_neg hno] at hlt
        exact hlt hbytes
      have hdeclared : (StateHeader.read f).declared = 4 * (StateHeader.read f).bytes.toNat := if_pos hcells
      have hnonempty := h.nonempty
      have hcap' := h.cap
      have hpresent := h.present
      rw [hdeclared] at hlt hnonempty hcap' hpresent
      exact .inr ⟨h.header, h.magic, hcells, Nat.le_of_not_lt hlt, hnonempty, hcap', hpresent⟩
  · rintro (h | h)
    · have hmod : (StateHeader.read f).declared % 2 ^ 32 = (StateHeader.read f).declared :=
        Nat.mod_eq_of_lt (lt_of_le_of_lt h.cap hcap)
      exact ⟨h.header, h.magic, h.version, hmod.symm ▸ h.nonempty, hmod.symm ▸ h.cap, hmod.symm ▸ h.present⟩
    · have hdeclared : (StateHeader.read f).declared = 4 * (StateHeader.read f).bytes.toNat := if_pos h.version
      exact ⟨h.header, h.magic, .inl h.version, hdeclared.symm ▸ h.nonempty, hdeclared.symm ▸ h.cap,
        hdeclared.symm ▸ h.present⟩

/-! ## What a save leaves -/

theorem tmp_ne (path : String) : path ++ ".tmp" ≠ path := by
  intro h
  have hlen := congrArg String.length h
  rw [String.length_append] at hlen
  exact absurd hlen (by simp)

/-- A save that succeeds leaves the header and the payload under the name. -/
theorem saved_file {fs fs' : Files String Byte} (hw : fs.Wf) {path : String} {x : List Byte} {r : SaveResults}
    (h : saveBlob fs path x r = (fs', true)) : fs'.file path = some ((savedHeader x).image ++ x) := by
  unfold saveBlob at h
  dsimp only at h
  split at h
  · split at h
    · rename_i hok
      obtain ⟨hheader, hdata, hclose⟩ := hok
      rw [if_pos hheader, if_pos hclose, hdata, List.take_length] at h
      split at h
      · rename_i fs'' hrename
        cases h
        split at hrename
        · have hfile := (((Files.create_owns fs (path ++ ".tmp")).put (savedHeader x).image).put x).file
          rw [List.nil_append] at hfile
          have hwf := Files.flush_wf (Files.create_wf hw (path ++ ".tmp"))
          rw [(Files.rename_spec (tmp_ne path) (hwf _ _) hrename).2, hfile]
        · cases hrename
      · cases h
    · cases h
  · cases h

theorem load_saved {x : List Byte} (hx : x ≠ []) (hcap : x.length ≤ cap.toNat) (data : List Byte)
    (bytesOut : Option Word) : loadBlob (some ((savedHeader x).image ++ x)) data cap bytesOut =
      ⟨kStateVersion, x ++ data.drop x.length, bytesOut.map fun _ => BitVec.ofNat 32 x.length⟩ := by
  have hlt := lt_of_le_of_lt hcap cap.isLt
  have hread := read_image (savedHeader x) x
  have hpayload : (savedHeader x).payload = BitVec.ofNat 32 x.length := rfl
  have htoNat : (BitVec.ofNat 32 x.length).toNat = x.length := by
    rw [BitVec.toNat_ofNat]
    exact Nat.mod_eq_of_lt hlt
  have hdeclared : (savedHeader x).declared % 2 ^ 32 = x.length := by rw [← payload_toNat, hpayload, htoNat]
  have haccepted : Accepted ((savedHeader x).image ++ x) cap := by
    have hlen : ((savedHeader x).image ++ x).length = 16 + x.length := by rw [List.length_append, image_length]
    refine ⟨?_, ?_, ?_, ?_, ?_, ?_⟩
    · omega
    · rw [hread]
      rfl
    · rw [hread]
      exact .inr rfl
    · rw [hread, hdeclared]
      exact fun hzero => hx (List.length_eq_zero_iff.1 hzero)
    · rw [hread, hdeclared]
      exact hcap
    · rw [hread, hdeclared, hlen]
  have hdrop : ((savedHeader x).image ++ x).drop 16 = x := by
    rw [← image_length (savedHeader x)]
    exact List.drop_left
  rw [load_accepted haccepted, hread, hpayload, htoNat, hdrop, List.take_length]
  rfl

/-! ## What a load is worth -/

/-- A whole file says how much it has without a wrap. -/
theorem Whole.payload (h : Whole f cap) : (StateHeader.read f).payload.toNat = (StateHeader.read f).declared := by
  rw [payload_toNat]
  exact Nat.mod_eq_of_lt (lt_of_le_of_lt h.cap cap.isLt)

theorem Wraps.not_whole (h : Wraps f cap) : ¬Whole f cap := by
  intro hwhole
  have hdeclared : (StateHeader.read f).declared = 4 * (StateHeader.read f).bytes.toNat := if_pos h.version
  have hle := hwhole.cap
  have hlt := cap.isLt
  have hcells := h.cells
  omega

theorem Wraps.not_exact (h : Wraps f cap) : ¬LoadsExactly (some f) data cap bytesOut := by
  intro hload
  have hzero := (hload.refused fun g hg => Option.some.inj hg ▸ h.not_whole).1
  rw [load_accepted (accepted_iff.2 (.inr h))] at hzero
  dsimp only at hzero
  rw [h.version] at hzero
  cases hzero

theorem loads_exactly {file : Option (List Byte)} (hno : ∀ f, file = some f → ¬Wraps f cap) (data : List Byte)
    (bytesOut : Option Word) : LoadsExactly file data cap bytesOut where
  whole := by
    rintro f rfl hwhole
    have heq : (StateHeader.read f).payload = BitVec.ofNat 32 (StateHeader.read f).declared := by
      rw [← hwhole.payload, BitVec.ofNat_toNat, BitVec.setWidth_eq]
    dsimp only
    rw [load_accepted (accepted_iff.2 (.inl hwhole)), hwhole.payload, heq]
    exact ⟨rfl, rfl, rfl⟩
  refused := by
    intro hnot
    cases file with
    | none => exact ⟨rfl, rfl⟩
    | some f =>
      apply load_refused
      rw [accepted_iff]
      rintro (hwhole | hwraps)
      · exact hnot f rfl hwhole
      · exact hno f rfl hwraps

/-- For every file and buffer, `load_blob` takes a whole file as it declares itself and
refuses any other, exactly unless its cells wrap to a size the file has; and what a save
left of any payload that is not empty and fits the buffer it gives back. -/
theorem load_exact (file : Option (List Byte)) (data : List Byte) (cap : Word) (bytesOut : Option Word) :
    (LoadsExactly file data cap bytesOut ↔ ∀ f, file = some f → ¬Wraps f cap) ∧
      ∀ (fs fs' : Files String Byte) (path : String) (x : List Byte) (r : SaveResults), fs.Wf → x ≠ [] →
      x.length ≤ cap.toNat →
        saveBlob fs path x r = (fs', true) → loadBlob (fs'.file path) data cap bytesOut =
          ⟨kStateVersion, x ++ data.drop x.length, bytesOut.map fun _ => BitVec.ofNat 32 x.length⟩ := by
  refine ⟨⟨?_, fun hno => loads_exactly hno data bytesOut⟩, ?_⟩
  · rintro hload f rfl hwraps
    exact hwraps.not_exact hload
  · intro fs fs' path x r hw hx hcap hsave
    rw [saved_file hw hsave]
    exact load_saved hx hcap data bytesOut

/-- A save of three bytes on an empty disk, every call of which succeeds. -/
def firstSave : Files String Byte × Bool :=
  saveBlob ⟨fun _ => [], fun _ => none, 0⟩ "state.bin" [7, 8, 9] ⟨true, true, 3, true, 0, true, true⟩

theorem load_exact_save : firstSave.2 = true ∧
    loadBlob (firstSave.1.file "state.bin") [0, 0, 0, 0] 4 (some 0) = ⟨2, [7, 8, 9, 0], some 3⟩ ∧
    LoadsExactly none [0, 0, 0, 0] 4 (some 0) := by
  have hok : firstSave.2 = true := by decide +kernel
  obtain ⟨hexact, hsaved⟩ := load_exact none [0, 0, 0, 0] 4 (some 0)
  refine ⟨hok, ?_, hexact.2 fun f hf => nomatch hf⟩
  apply hsaved _ _ _ _ _ ?_ (List.cons_ne_nil _ _) (by decide) (Prod.ext rfl hok)
  exact ⟨fun n k h => (nomatch h), fun n m k h => (nomatch h)⟩

/-- A file of the first version with 2^30 + 1 cells, of which it has one. -/
def wrapped : List Byte := (StateHeader.image ⟨kStateMagic, kStateVersionCells, 0x40000001, 0⟩) ++ [1, 2, 3, 4]

/-- It is taken for a file of one cell. -/
theorem misread : loadBlob (some wrapped) [0, 0, 0, 0] 8192 (some 0) = ⟨1, [1, 2, 3, 4], some 4⟩ ∧
    (StateHeader.read wrapped).declared = 4294967300 ∧ ¬LoadsExactly (some wrapped) [0, 0, 0, 0] 8192 (some 0) := by
  have hload : loadBlob (some wrapped) [0, 0, 0, 0] 8192 (some 0) = ⟨1, [1, 2, 3, 4], some 4⟩ := by decide +kernel
  have hdeclared : (StateHeader.read wrapped).declared = 4294967300 := by decide +kernel
  have hwraps : Wraps wrapped 8192 := by
    constructor <;> decide +kernel
  exact ⟨hload, hdeclared, hwraps.not_exact⟩

end UserFace800.Store
