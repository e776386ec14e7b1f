import UserFace800.Dext.BusReset
import UserFace800.Lib.Crc
/-!
# The config ROM the host publishes

A node that verifies what it reads rejects a block whose checksum is wrong. `rom_crc` is
that `uf_rom_crc16` computes the checksum it is meant to, the remainder by
`X ^ 16 + X ^ 12 + X ^ 5 + 1`, and that both blocks of the ROM check whatever the controller
says it is called. `rom_damage` is what a reader can rely on in return.
-/
open Polynomial UserFace800.Lib

namespace UserFace800.Dext

/-! ## The checksum -/

/-- One turn of the inner loop of `rom_crc`. -/
def romCrcTurn (crc : BitVec 16) : BitVec 16 := if crc &&& 0x8000 ≠ 0 then (crc <<< 1) ^^^ 0x1021 else crc <<< 1

/-- The byte of `quad` at `shift`, then eight turns. -/
def romCrcByte (quad : U32) (crc : BitVec 16) (shift : ℕ) : BitVec 16 :=
  (List.range 8).foldl (fun crc _ => romCrcTurn crc) (crc ^^^ (((quad >>> shift) &&& 0xff).setWidth 16 <<< 8))

/-- `uf_rom_crc16`. -/
def ufRomCrc16 (quads : List U32) : BitVec 16 :=
  quads.foldl (fun crc quad => [24, 16, 8, 0].foldl (romCrcByte quad) crc) 0

/-- The bytes of a block, in bus order. -/
def romBytes (quads : List U32) : List (BitVec 8) :=
  quads.flatMap fun quad => [24, 16, 8, 0].map fun shift => (quad >>> shift).setWidth 8

theorem romCrcTurn_eq (crc : BitVec 16) : romCrcTurn crc = Crc.turn 0x1021 crc := by
  have hmsb : crc &&& 0x8000 ≠ 0 ↔ crc.msb = true := by
    rw [BitVec.msb_eq_getLsbD_last, show (0x8000 : BitVec 16) = BitVec.twoPow 16 15 from rfl, BitVec.and_twoPow]
    cases crc.getLsbD 15 <;> decide
  unfold romCrcTurn Crc.turn
  exact if_congr hmsb rfl rfl

theorem romCrcByte_eq (quad : U32) (crc : BitVec 16) (shift : ℕ) :
    romCrcByte quad crc shift = Crc.feed 0x1021 crc ((quad >>> shift).setWidth 8) := by
  have hbyte : ((quad >>> shift) &&& 0xff).setWidth 16 = ((quad >>> shift).setWidth 8).setWidth 16 := by
    ext i hi
    have hmask : (0xff : U32).getLsbD i = decide (i < 8) := by interval_cases i <;> rfl
    rw [BitVec.getElem_setWidth, BitVec.getElem_setWidth, BitVec.getLsbD_and, hmask, BitVec.getLsbD_setWidth,
      Bool.and_comm]
  simp only [romCrcByte, romCrcTurn_eq, hbyte]
  rfl

theorem ufRomCrc16_eq (quads : List U32) : ufRomCrc16 quads = Crc.crc 0x1021 (romBytes quads) := by
  have hbyte : ∀ quad, romCrcByte quad = fun crc shift => Crc.feed 0x1021 crc ((quad >>> shift).setWidth 8) := by
    intro quad
    funext crc shift
    exact romCrcByte_eq quad crc shift
  unfold ufRomCrc16 Crc.crc romBytes
  rw [List.foldl_flatMap]
  simp only [List.foldl_map, hbyte]

theorem generator_eq : Crc.generator (0x1021 : BitVec 16) = X ^ 16 + X ^ 12 + X ^ 5 + 1 := by
  have hsum : Crc.toPoly (0x1021 : BitVec 16) = X ^ 12 + X ^ 5 + 1 := by
    ext i
    rw [Crc.coeff_toPoly]
    simp only [coeff_add, coeff_X_pow, coeff_one]
    by_cases hi : i < 16
    · interval_cases i <;> decide
    · rw [BitVec.getLsbD_of_ge _ i (Nat.not_lt.1 hi)]
      simp [show i ≠ 12 by omega, show i ≠ 5 by omega, show i ≠ 0 by omega]
  rw [Crc.generator, hsum]
  ring

/-! ## The ROM -/

/-- What `uf_hw_bring_up` puts there, before each quadlet is swapped to bus order. -/
def hostRom (busOptions guidHi guidLo : U32) : List U32 :=
  let bib : List U32 := [0x31333934, (busOptions ||| 0x60000200) &&& 0x6fffffff, guidHi, guidLo]
  let root : List U32 := [0x0c0083c0]
  [0x04040000 ||| (ufRomCrc16 bib).setWidth 32] ++ bib ++ [0x00010000 ||| (ufRomCrc16 root).setWidth 32] ++ root

/-- Whether the `n` quadlets after the header at `i` have the checksum that is in it. -/
def RomChecks (rom : List U32) (i n : ℕ) : Prop :=
  i + n < rom.length ∧ ufRomCrc16 ((rom.drop (i + 1)).take n) = (rom.getD i 0).setWidth 16

/-- The lengths in the header of the bus-info block: that of the block, and how far its
checksum reaches. -/
def busInfoLength (rom : List U32) : ℕ := ((rom.getD 0 0 >>> 24) &&& 0xff).toNat

/-- The quadlets the first block's checksum covers, as the ROM says. -/
def crcLength (rom : List U32) : ℕ := ((rom.getD 0 0 >>> 16) &&& 0xff).toNat

/-- Where the root directory begins, and the length in its header. -/
def rootAt (rom : List U32) : ℕ := 1 + busInfoLength rom

/-- The length of the root directory, as the ROM says. -/
def rootLength (rom : List U32) : ℕ := ((rom.getD (rootAt rom) 0 >>> 16) &&& 0xffff).toNat

/-- The blocks of a ROM are as long as their headers say, and have the checksums in them. -/
structure RomWellFormed (rom : List U32) : Prop where
  covered : crcLength rom = busInfoLength rom
  busInfo : RomChecks rom 0 (crcLength rom)
  root : RomChecks rom (rootAt rom) (rootLength rom)
  whole : rom.length = rootAt rom + 1 + rootLength rom

theorem header_crc (c : BitVec 16) : ((0x04040000 ||| c.setWidth 32 : U32).setWidth 16 = c) ∧
    ((0x00010000 ||| c.setWidth 32 : U32).setWidth 16 = c) := by
  have hlow : ∀ h : U32, (∀ i < 16, h.getLsbD i = false) → (h ||| c.setWidth 32).setWidth 16 = c := by
    intro h hzero
    ext i hi
    rw [BitVec.getElem_setWidth, BitVec.getLsbD_or, BitVec.getLsbD_setWidth, hzero i hi, Bool.false_or,
      decide_eq_true (show i < 32 by omega), Bool.true_and, BitVec.getLsbD_eq_getElem hi]
  exact ⟨hlow _ (by decide), hlow _ (by decide)⟩

/-- The lengths in the two headers. -/
theorem header_length (c : BitVec 16) : ((0x04040000 ||| c.setWidth 32 : U32) >>> 24) &&& 0xff = 4 ∧
    ((0x04040000 ||| c.setWidth 32 : U32) >>> 16) &&& 0xff = 4 ∧
    ((0x00010000 ||| c.setWidth 32 : U32) >>> 16) &&& 0xffff = 1 := by
  have hhigh : ∀ n, 16 ≤ n → (c.setWidth 32 : U32) >>> n = 0 := by
    intro n hn
    ext i hi
    rw [BitVec.getElem_ushiftRight, BitVec.getLsbD_setWidth, BitVec.getLsbD_of_ge c (n + i) (by omega), Bool.and_false]
    exact (BitVec.getElem_zero hi).symm
  rw [BitVec.ushiftRight_or_distrib, BitVec.ushiftRight_or_distrib, BitVec.ushiftRight_or_distrib, hhigh 24 (by decide),
    hhigh 16 (by decide)]
  decide

theorem hostRom_lengths (busOptions guidHi guidLo : U32) : busInfoLength (hostRom busOptions guidHi guidLo) = 4 ∧
    crcLength (hostRom busOptions guidHi guidLo) = 4 ∧ rootLength (hostRom busOptions guidHi guidLo) = 1 := by
  have hbus : busInfoLength (hostRom busOptions guidHi guidLo) = 4 := congrArg BitVec.toNat (header_length _).1
  refine ⟨hbus, congrArg BitVec.toNat (header_length _).2.1, ?_⟩
  rw [rootLength, rootAt, hbus]
  exact congrArg BitVec.toNat (header_length _).2.2

theorem hostRom_wellFormed (busOptions guidHi guidLo : U32) : RomWellFormed (hostRom busOptions guidHi guidLo) := by
  obtain ⟨hbus, hcrc, hroot⟩ := hostRom_lengths busOptions guidHi guidLo
  have hat : rootAt (hostRom busOptions guidHi guidLo) = 5 := by rw [rootAt, hbus]
  refine ⟨hcrc.trans hbus.symm, ?_, ?_, ?_⟩
  · rw [hcrc]
    exact ⟨(by decide : 0 + 4 < 7), (header_crc _).1.symm⟩
  · rw [hat, hroot]
    exact ⟨(by decide : 5 + 1 < 7), (header_crc _).2.symm⟩
  · rw [hat, hroot]
    rfl

/-- Nobody takes us for an FF800. -/
theorem hostRom_parsed (busOptions guidHi guidLo : U32) : parseConfigRom (hostRom busOptions guidHi guidLo) = {} := by
  have hbus : ((hostRom busOptions guidHi guidLo).getD 0 0 >>> 24) &&& 0xff = 4 := (header_length _).1
  have hentries : entries (hostRom busOptions guidHi guidLo) 5 = [(6, 0x0c0083c0)] := by
    have hlen : ((hostRom busOptions guidHi guidLo).getD 5 0 >>> 16) &&& 0xffff = 1 := (header_length _).2.2
    rw [entries, hlen]
    rfl
  rw [parseConfigRom, hbus]
  dsimp only
  rw [show 1 + (4 : U32).toNat = 5 from rfl, hentries, show (hostRom busOptions guidHi guidLo).length = 7 from rfl,
    if_neg (by decide)]
  rfl

/-! ## What a reader can rely on -/

/-- Bit `i` of a block with its checksum behind it, from the end. -/
def romBit (quads : List U32) (crc : BitVec 16) (i : ℕ) : Bool :=
  if i < 16 then crc.getLsbD i else (quads.reverse.getD ((i - 16) / 32) 0).getLsbD ((i - 16) % 32)

theorem romBytes_bit (quads : List U32) (i : ℕ) :
    ((romBytes quads).reverse.getD (i / 8) 0).getLsbD (i % 8) = (quads.reverse.getD (i / 32) 0).getLsbD (i % 32) := by
  induction quads using List.reverseRecOn generalizing i with
  | nil => simp [romBytes]
  | append_singleton quads quad ih =>
    have hbytes : (romBytes (quads ++ [quad])).reverse =
        quad.setWidth 8 :: (quad >>> 8).setWidth 8 :: (quad >>> 16).setWidth 8 ::
        (quad >>> 24).setWidth 8 :: (romBytes quads).reverse := by
      simp [romBytes]
    rw [hbytes, List.reverse_concat]
    rcases Nat.lt_or_ge i 32 with hi | hi
    · have hbit : ∀ n, n + i % 8 = i → ((quad >>> n).setWidth 8).getLsbD (i % 8) = quad.getLsbD i := by
        intro n hn
        rw [BitVec.getLsbD_setWidth, BitVec.getLsbD_ushiftRight, hn, decide_eq_true (Nat.mod_lt i (by decide)),
          Bool.true_and]
      rw [Nat.div_eq_of_lt hi, Nat.mod_eq_of_lt hi, List.getD_cons_zero]
      have hfour : i / 8 = 0 ∨ i / 8 = 1 ∨ i / 8 = 2 ∨ i / 8 = 3 := by omega
      rcases hfour with h | h | h | h <;> rw [h]
      · exact hbit 0 (by omega)
      · exact hbit 8 (by omega)
      · exact hbit 16 (by omega)
      · exact hbit 24 (by omega)
    · have hrest := ih (i - 32)
      rw [show i / 8 = (i - 32) / 8 + 4 by omega, show i / 32 = (i - 32) / 32 + 1 by omega,
        show i % 8 = (i - 32) % 8 by omega, show i % 32 = (i - 32) % 32 by omega]
      exact hrest

theorem romBit_eq (quads : List U32) (crc : BitVec 16) (i : ℕ) :
    romBit quads crc i = Crc.blockBit (romBytes quads) crc i := by
  unfold romBit Crc.blockBit
  rw [romBytes_bit]

theorem romBit_far {quads : List U32} {crc : BitVec 16} {i : ℕ} (h : 16 + 32 * quads.length ≤ i) :
    romBit quads crc i = false := by
  have hnone : quads.reverse[(i - 16) / 32]? = none := List.getElem?_eq_none (by rw [List.length_reverse]; omega)
  rw [romBit, if_neg (by omega), List.getD_eq_getElem?_getD, hnone]
  exact BitVec.getLsbD_zero

/-- The checksum is the remainder it is meant to be; both blocks of our ROM have it, and the
lengths of the blocks, in their headers. -/
theorem rom_crc : (∀ quads, Crc.toPoly (ufRomCrc16 quads) =
      (X ^ 16 * Crc.message (romBytes quads)) %ₘ (X ^ 16 + X ^ 12 + X ^ 5 + 1)) ∧
    ∀ busOptions guidHi guidLo, RomWellFormed (hostRom busOptions guidHi guidLo) ∧
      busInfoLength (hostRom busOptions guidHi guidLo) = 4 ∧ rootLength (hostRom busOptions guidHi guidLo) = 1 ∧
      parseConfigRom (hostRom busOptions guidHi guidLo) = {} ∧
      romIsFF800 (parseConfigRom (hostRom busOptions guidHi guidLo)) = false := by
  refine ⟨fun quads => ?_, fun busOptions guidHi guidLo => ?_⟩
  · rw [ufRomCrc16_eq, ← generator_eq]
    exact Crc.toPoly_crc (by decide) _ _
  · obtain ⟨hbus, -, hroot⟩ := hostRom_lengths busOptions guidHi guidLo
    have hparsed := hostRom_parsed busOptions guidHi guidLo
    refine ⟨hostRom_wellFormed busOptions guidHi guidLo, hbus, hroot, hparsed, ?_⟩
    rw [hparsed]
    decide

theorem apart_rom : Crc.apart (0x1021 : BitVec 16) 8191 1 = true := by decide +kernel

/-- In a block of at most 255 quadlets, the longest there are, and its checksum, no damage
passes that is confined to 16 bits in a row, or changes two bits, or any odd number. -/
theorem rom_damage {quads quads' : List U32} {crc crc' : BitVec 16} (hvalid : ufRomCrc16 quads = crc)
    (hlen : quads.length ≤ 255) (hlen' : quads'.length ≤ 255) {errors : Finset ℕ}
    (herrors : ∀ i, i ∈ errors ↔ romBit quads crc i ≠ romBit quads' crc' i)
    (hfew : (errors.Nonempty ∧ ∃ j, ∀ i ∈ errors, j ≤ i ∧ i < j + 16) ∨ errors.card = 2 ∨ Odd errors.card) :
    ufRomCrc16 quads' ≠ crc' := by
  simp only [ufRomCrc16_eq, romBit_eq] at hvalid herrors ⊢
  rw [Ne, Crc.damaged_iff (by decide) (by decide) hvalid herrors]
  rcases hfew with ⟨hne, j, hj⟩ | htwo | hodd
  · exact Crc.not_dvd_burst (by decide) (by decide) hne hj
  · have hnear : ∀ i ∈ errors, i < 8176 := by
      intro i hi
      by_contra hfar
      refine (herrors i).1 hi ?_
      rw [← romBit_eq, ← romBit_eq, romBit_far (by omega), romBit_far (by omega)]
    obtain ⟨a, b, hab, rfl⟩ := Finset.card_eq_two.1 htwo
    have hpair : ∀ a b, a < b → b < 8176 → ¬Crc.generator (0x1021 : BitVec 16) ∣ Crc.damage {a, b} := by
      intro a b hlt hb
      obtain ⟨d, rfl⟩ := Nat.exists_eq_add_of_lt hlt
      exact Crc.not_dvd_pair (by decide) (by decide) a (Nat.succ_pos d)
        (Crc.apart_turns apart_rom (Nat.succ_pos d) (by omega))
    rcases Nat.lt_or_gt_of_ne hab with hlt | hlt
    · exact hpair a b hlt (hnear b (by simp))
    · rw [Finset.pair_comm]
      exact hpair b a hlt (hnear a (by simp))
  · exact Crc.not_dvd_odd (by rw [Crc.eval_generator]; decide) hodd

/-- A bit of the root directory of our ROM, and one of its checksum. -/
theorem rom_damage_pair : ufRomCrc16 [0x0c0083c1] ≠ ufRomCrc16 [0x0c0083c0] ^^^ 0x10 := by
  have herrors : ∀ i, i ∈ ({4, 16} : Finset ℕ) ↔
      romBit [0x0c0083c0] (ufRomCrc16 [0x0c0083c0]) i ≠ romBit [0x0c0083c1] (ufRomCrc16 [0x0c0083c0] ^^^ 0x10) i := by
    intro i
    rcases Nat.lt_or_ge i 48 with hi | hi
    · revert i
      decide +kernel
    · rw [romBit_far hi, romBit_far hi, Finset.mem_insert, Finset.mem_singleton]
      exact ⟨fun h => by omega, fun h => absurd rfl h⟩
  exact rom_damage rfl (by decide) (by decide) herrors (.inr (.inl rfl))

end UserFace800.Dext
