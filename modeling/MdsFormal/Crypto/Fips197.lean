import Mathlib.Data.Fintype.EquivFin
import Mathlib.LinearAlgebra.Matrix.Notation
import MdsFormal.Crypto.CbcInverse
import MdsFormal.Crypto.FieldArithmetic

/-!
# The cipher of the standard

AES as FIPS-197 describes it: a state is a matrix over the field of bytes, a round maps
its entries through the S-box, turns its rows, multiplies it by a fixed matrix and adds a
round key.  The functions of the source do this on bytes.
-/

namespace MdsFormal.Crypto.Fips197

open MdsFormal.Crypto.Aes
open MdsFormal.Crypto.FieldArithmetic

/-! ## The standard -/

abbrev Column : Type := Fin 4 → ByteField

/-- Rows and columns of the state. -/
abbrev State : Type := Matrix (Fin 4) (Fin 4) ByteField

namespace Standard

noncomputable def subBytes (s : State) : State := s.map sBox

def shiftRows (s : State) : State := Matrix.of fun r c => s r (c + r)

noncomputable def mixMatrix : State :=
  !![root, root + 1, 1, 1;
     1, root, root + 1, 1;
     1, 1, root, root + 1;
     root + 1, 1, 1, root]

noncomputable def mixColumns (s : State) : State := mixMatrix * s

/-- The first `n` of the rounds with all four steps. -/
noncomputable def rounds (keys : Nat → State) : Nat → State → State
  | 0, s => s
  | n + 1, s => mixColumns (shiftRows (subBytes (rounds keys n s))) + keys (n + 1)

noncomputable def cipher (nr : Nat) (keys : Nat → State) (s : State) : State :=
  shiftRows (subBytes (rounds keys (nr - 1) (s + keys 0))) + keys nr

def rotWord (w : Column) : Column := fun r => w (r + 1)

noncomputable def subWord (w : Column) : Column := fun r => sBox (w r)

noncomputable def rcon (j : Nat) : Column := ![root ^ (j - 1), 0, 0, 0]

/-- What is added to the word `nk` places before word `i`. -/
noncomputable def temp (nk i : Nat) (w : Column) : Column :=
  if i % nk = 0 then subWord (rotWord w) + rcon (i / nk)
  else if 6 < nk ∧ i % nk = 4 then subWord w
  else w

/-- The words of the key schedule. -/
noncomputable def schedule (nk : Nat) (key : Nat → Column) (i : Nat) : Column :=
  if i < nk ∨ nk = 0 then key i
  else schedule nk key (i - nk) + temp nk i (schedule nk key (i - 1))
termination_by i
decreasing_by all_goals omega

/-- Four words of the schedule, as the columns of a round key. -/
noncomputable def roundKeys (nk : Nat) (key : Nat → Column) (round : Nat) : State :=
  Matrix.of fun r c => schedule nk key (4 * round + c) r

end Standard

/-! ## Words and blocks -/

noncomputable def column (w : Word) : Column :=
  ![residue w.b0, residue w.b1, residue w.b2, residue w.b3]

/-- The columns of a block. -/
def col (b : Block) : Fin 4 → Word := ![b.c0, b.c1, b.c2, b.c3]

noncomputable def state (b : Block) : State := Matrix.of fun r c => column (col b c) r

theorem column_xor (v w : Word) : column (v ^^^ w) = column v + column w := by
  funext r
  fin_cases r <;> exact residue_xor _ _

theorem state_xor (a b : Block) : state (a ^^^ b) = state a + state b := by
  ext r c
  have hcol : col (a ^^^ b) c = col a c ^^^ col b c := by
    fin_cases c <;> rfl
  change column (col (a ^^^ b) c) r = column (col a c) r + column (col b c) r
  rw [hcol, column_xor]
  rfl

/-! ## The steps of a round -/

theorem column_map (w : Word) : column (w.map getSBoxValue) = fun r => sBox (column w r) := by
  funext r
  fin_cases r <;> exact residue_getSBoxValue _

theorem state_subBytes (b : Block) : state (subBytes b) = Standard.subBytes (state b) := by
  ext r c
  have hcol : col (subBytes b) c = (col b c).map getSBoxValue := by
    fin_cases c <;> rfl
  change column (col (subBytes b) c) r = sBox (column (col b c) r)
  rw [hcol, column_map]

theorem state_shiftRows (b : Block) : state (shiftRows b) = Standard.shiftRows (state b) := by
  ext r c
  fin_cases r <;> fin_cases c <;> rfl

theorem column_mixColumn (w : Word) :
    column (mixColumn w) = Standard.mixMatrix.mulVec (column w) := by
  obtain ⟨b0, b1, b2, b3⟩ := w
  have hdouble (x : ByteField) : x + x = 0 := CharTwo.add_self_eq_zero x
  funext r
  fin_cases r
  · simp [column, mixColumn, Standard.mixMatrix, Matrix.mulVec, dotProduct, Fin.sum_univ_four,
      residue_xor, residue_xtime]
    linear_combination hdouble (residue b0)
  · simp [column, mixColumn, Standard.mixMatrix, Matrix.mulVec, dotProduct, Fin.sum_univ_four,
      residue_xor, residue_xtime]
    linear_combination hdouble (residue b1)
  · simp [column, mixColumn, Standard.mixMatrix, Matrix.mulVec, dotProduct, Fin.sum_univ_four,
      residue_xor, residue_xtime]
    linear_combination hdouble (residue b2)
  · simp [column, mixColumn, Standard.mixMatrix, Matrix.mulVec, dotProduct, Fin.sum_univ_four,
      residue_xor, residue_xtime]
    linear_combination hdouble (residue b3)

theorem state_mixColumns (b : Block) : state (mixColumns b) = Standard.mixColumns (state b) := by
  ext r c
  have hcol : col (mixColumns b) c = mixColumn (col b c) := by
    fin_cases c <;> rfl
  change column (col (mixColumns b) c) r = Standard.mixMatrix.mulVec _ r
  rw [hcol, column_mixColumn]
  rfl

theorem state_addRoundKey (roundKey : RoundKey) (round : Nat) (b : Block) :
    state (addRoundKey roundKey round b) = state b + state (roundKey.block round) :=
  state_xor b (roundKey.block round)

/-! ## The rounds -/

section

variable {roundKey : RoundKey} {keys : Nat → State} {nr : Nat}

theorem state_rounds {n : Nat} (hkeys : ∀ round ≤ n, state (roundKey.block round) = keys round)
    (b : Block) : state (rounds roundKey n b) = Standard.rounds keys n (state b) := by
  induction n with
  | zero => rfl
  | succ n ih =>
      rw [rounds, state_addRoundKey, state_mixColumns, state_shiftRows, state_subBytes,
        ih fun round hround => hkeys round (Nat.le_succ_of_le hround), hkeys (n + 1) (Nat.le_refl _)]
      rfl

/-- Under round keys that are those of the standard, so is `Cipher`. -/
theorem state_cipher (hkeys : ∀ round ≤ nr, state (roundKey.block round) = keys round)
    (b : Block) : state (cipher nr roundKey b) = Standard.cipher nr keys (state b) := by
  have hrounds : ∀ round ≤ nr - 1, state (roundKey.block round) = keys round :=
    fun round hround => hkeys round (by omega)
  rw [cipher, state_addRoundKey, state_shiftRows, state_subBytes, state_rounds hrounds,
    state_addRoundKey, hkeys 0 (Nat.zero_le nr), hkeys nr (Nat.le_refl nr)]
  rfl

end

end MdsFormal.Crypto.Fips197
