import MarkupTree.Token.Id
import Mathlib.Data.List.Nodup
import Mathlib.Data.List.Range

/-!
# Telling identities apart

The written form of a number has no leading zeros, so it is that of no other number. A counter hands
out numbers in a row, which are different as long as it does not come round to where it began, and
increase as long as it does not run over.

* `toDigits_injective`, `TokenId.display_injective` — numbers and identities are known by their
  written form
* `toDigits_append_inj`, `TokenId.display_append_inj` — also in front of something else
* `TokenId.nodup_row`, `TokenId.pairwise_row` — when the identities of a row differ and increase
-/

namespace MarkupTree

/-! ## Written forms -/

theorem digitChar_injOn : ∀ m < 16, ∀ n < 16, Nat.digitChar m = Nat.digitChar n → m = n := by
  decide

/-- A single digit is not written like a number that has others in front. -/
theorem singleton_ne_toDigits_append (b n : Nat) (c d : Char) : [c] ≠ Nat.toDigits b n ++ [d] := by
  intro h
  rw [← List.nil_append [c]] at h
  exact Nat.toDigits_ne_nil (List.append_inj' h rfl).1.symm

/-- A number is known by its digits, to any base that has enough of them. -/
theorem toDigits_injective {b : Nat} (hb : 1 < b) (hb' : b ≤ 16) :
    Function.Injective (Nat.toDigits b) := by
  intro m
  induction m using Nat.strongRecOn with
  | ind m ih =>
    intro n h
    rw [Nat.toDigits_eq_if hb, Nat.toDigits_eq_if hb (n := n)] at h
    split at h
    · next hm =>
      split at h
      · next hn => exact digitChar_injOn m (by omega) n (by omega) (List.singleton_inj.mp h)
      · exact absurd h (singleton_ne_toDigits_append b (n / b) _ _)
    · next hm =>
      split at h
      · exact absurd h.symm (singleton_ne_toDigits_append b (m / b) _ _)
      · -- the last digit is the remainder, and those in front are the digits of the quotient
        obtain ⟨hlead, hlast⟩ := List.append_inj' h rfl
        have hquot : m / b = n / b := ih (m / b) (Nat.div_lt_self (by omega) hb) hlead
        have hsmall (k : Nat) : k % b < 16 := Nat.lt_of_lt_of_le (Nat.mod_lt k (by omega)) hb'
        have hrem : m % b = n % b :=
          digitChar_injOn _ (hsmall m) _ (hsmall n) (List.singleton_inj.mp hlast)
        rw [← Nat.div_add_mod m b, ← Nat.div_add_mod n b, hquot, hrem]

theorem isAlphanum_digitChar : ∀ d < 16, (Nat.digitChar d).isAlphanum = true := by decide

theorem isAlphanum_of_mem_toDigits {b : Nat} (hb : 1 < b) (hb' : b ≤ 16) {c : Char} :
    ∀ {n : Nat}, c ∈ Nat.toDigits b n → c.isAlphanum = true := by
  intro n
  induction n using Nat.strongRecOn with
  | ind n ih =>
    intro hc
    rw [Nat.toDigits_eq_if hb] at hc
    split at hc
    · next hn =>
      rw [List.mem_singleton.mp hc]
      exact isAlphanum_digitChar n (by omega)
    · next hn =>
      rcases List.mem_append.mp hc with hlead | hlast
      · exact ih (n / b) (Nat.div_lt_self (by omega) hb) hlead
      · rw [List.mem_singleton.mp hlast]
        exact isAlphanum_digitChar _ (Nat.lt_of_lt_of_le (Nat.mod_lt n (by omega)) hb')

/-- A part of a text is known if the sign behind it is one that the part does not hold. -/
theorem append_cons_inj_of_forall {p : Char → Bool} {l m s t : List Char} {c d : Char}
    (hl : ∀ a ∈ l, p a = true) (hm : ∀ a ∈ m, p a = true) (hc : p c = false) (hd : p d = false) :
    l ++ c :: s = m ++ d :: t ↔ l = m ∧ c = d ∧ s = t := by
  constructor
  · intro h
    have hlead := congrArg (List.takeWhile p) h
    rw [List.takeWhile_append_of_pos hl, List.takeWhile_append_of_pos hm,
      List.takeWhile_cons_of_neg (by simp [hc]), List.takeWhile_cons_of_neg (by simp [hd]),
      List.append_nil, List.append_nil] at hlead
    rw [hlead] at h
    exact ⟨hlead, List.cons.inj (List.append_cancel_left h)⟩
  · rintro ⟨rfl, rfl, rfl⟩
    rfl

/-- A number ends where its digits do. -/
theorem toDigits_append_inj {b : Nat} (hb : 1 < b) (hb' : b ≤ 16) {m n : Nat} {c d : Char}
    (hc : c.isAlphanum = false) (hd : d.isAlphanum = false) {s t : List Char} :
    Nat.toDigits b m ++ c :: s = Nat.toDigits b n ++ d :: t ↔ m = n ∧ c = d ∧ s = t := by
  rw [append_cons_inj_of_forall (fun _ => isAlphanum_of_mem_toDigits hb hb')
    (fun _ => isAlphanum_of_mem_toDigits hb hb') hc hd, (toDigits_injective hb hb').eq_iff]

namespace TokenId

/-- Two identities are written alike only if they are the same. -/
theorem display_injective : Function.Injective display := by
  intro a b h
  have hdigits : Text.hexDigits a.value.toNat = Text.hexDigits b.value.toNat :=
    List.append_cancel_left h
  have hvalue := toDigits_injective (by decide) (by decide) hdigits
  rw [TokenId.mk.injEq]
  exact UInt64.toNat_inj.mp hvalue

theorem display_append_inj {a b : TokenId} {c d : Char} (hc : c.isAlphanum = false)
    (hd : d.isAlphanum = false) {s t : List Char} :
    a.display ++ c :: s = b.display ++ d :: t ↔ a = b ∧ c = d ∧ s = t := by
  rw [display, display, List.append_assoc, List.append_assoc, List.append_right_inj,
    Text.hexDigits, Text.hexDigits, toDigits_append_inj (by decide) (by decide) hc hd,
    UInt64.toNat_inj, ← TokenId.mk.injEq]

/-! ## Identities in a row -/

/-- The `n` identities that a counter hands out from `first` on. -/
def row (first : UInt64) (n : Nat) : List TokenId :=
  (List.range n).map fun k => ⟨first + UInt64.ofNat k⟩

theorem row_succ (first : UInt64) (n : Nat) :
    row first (n + 1) = row first n ++ [⟨first + UInt64.ofNat n⟩] := by
  rw [row, List.range_succ, List.map_append]
  rfl

theorem row_succ_eq_cons (first : UInt64) (n : Nat) :
    row first (n + 1) = ⟨first⟩ :: row (first + 1) n := by
  rw [row, List.range_succ_eq_map, List.map_cons, List.map_map]
  congr 1
  · exact congrArg mk (UInt64.add_zero first)
  · refine List.map_congr_left fun k _ => congrArg mk ?_
    show first + UInt64.ofNat (k + 1) = first + 1 + UInt64.ofNat k
    rw [UInt64.ofNat_add, UInt64.add_comm (UInt64.ofNat k), UInt64.add_assoc]
    rfl

/-- Identities in a row are numbers in a row as long as the last one fits. -/
theorem map_toNat_row {first : UInt64} {n : Nat} (h : first.toNat + n ≤ UInt64.size) :
    (row first n).map (·.value.toNat) = List.range' first.toNat n := by
  rw [row, List.map_map, List.range'_eq_map_range]
  refine List.map_congr_left fun k hk => ?_
  have hlt := List.mem_range.mp hk
  show (first + UInt64.ofNat k).toNat = first.toNat + k
  rw [UInt64.toNat_add, UInt64.toNat_ofNat_of_lt' (by omega), Nat.mod_eq_of_lt]
  exact Nat.lt_of_lt_of_le (Nat.add_lt_add_left hlt _) h

/-- No identity comes twice before the counter has gone all the way round. -/
theorem nodup_row (first : UInt64) {n : Nat} (h : n ≤ UInt64.size) : (row first n).Nodup := by
  refine List.nodup_range.map_on fun j hj k hk he => ?_
  rw [List.mem_range] at hj hk
  -- numbers below 2 ^ 64 that are the same words are the same
  rw [TokenId.mk.injEq, UInt64.add_right_inj] at he
  have hjk := congrArg UInt64.toNat he
  rwa [UInt64.toNat_ofNat_of_lt' (Nat.lt_of_lt_of_le hj h),
    UInt64.toNat_ofNat_of_lt' (Nat.lt_of_lt_of_le hk h)] at hjk

/-- Identities in a row increase before the counter runs over. -/
theorem pairwise_row {first : UInt64} {n : Nat} (h : first.toNat + n ≤ UInt64.size) :
    (row first n).Pairwise (·.value < ·.value) := by
  have hrange := List.pairwise_lt_range' (s := first.toNat) (n := n)
  rw [← map_toNat_row h, List.pairwise_map] at hrange
  exact hrange.imp fun hlt => UInt64.lt_iff_toNat_lt.mpr hlt

end TokenId

end MarkupTree
