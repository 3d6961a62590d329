import ClassOutline.Text.Rune
import Mathlib.Data.List.Basic
import Mathlib.Tactic.SplitIfs

/-!
# How a text falls into characters

Every text has one reading as a list of characters, also where it is not UTF-8. This module says
how that reading behaves when the text is cut. The bytes of the characters, put together again, are
the text (`ofRunes_runes`). A cut between two characters leaves the reading of both sides alone
(`runes_ofRunes_left`, `runes_ofRunes_right`), and there always is such a cut in front of a byte that
cannot stand inside a character (`runes_append_lead`). So there is one on both sides of an ASCII byte
(`runes_append`, `runes_append_of_last`).
-/

namespace ClassOutline

namespace Rune

/-! ## One character -/

theorem le_secondBounds (lead : UInt8) : 0x80 ≤ (secondBounds lead).1 := by
  unfold secondBounds
  split_ifs <;> decide

theorem secondBounds_le (lead : UInt8) : (secondBounds lead).2 ≤ 0xBF := by
  unfold secondBounds
  split_ifs <;> decide

/-- Whether a byte can stand behind the first one of a character. -/
def isLater (b : UInt8) : Bool := within 0x80 0xBF b

theorem isLater_of_within {low high : Nat} {b : UInt8} (hlow : 0x80 ≤ low) (hhigh : high ≤ 0xBF)
    (h : within low high b = true) : isLater b = true := by
  simp only [isLater, within, Bool.and_eq_true, decide_eq_true_eq] at h ⊢
  exact ⟨Nat.le_trans hlow h.1, Nat.le_trans h.2 hhigh⟩

theorem le_of_within {low high : Nat} {b : UInt8} (hlow : 0x80 ≤ low)
    (h : within low high b = true) : 0x80 ≤ b := by
  simp only [within, Bool.and_eq_true, decide_eq_true_eq] at h
  rw [UInt8.le_iff_toNat_le]
  exact Nat.le_trans hlow h.1

theorem isLater_of_ascii {b : UInt8} (h : b < 0x80) : isLater b = false := by
  rw [isLater, Bool.eq_false_iff]
  exact fun hb => UInt8.not_lt.mpr (le_of_within (Nat.le_refl _) hb) h

@[simp] theorem read_ascii {b : UInt8} (hb : b < 0x80) (s : Bytes) :
    read b s = ⟨b.toNat, [b]⟩ := by
  simp [read, hb]

/-- A character is read from the first byte and from later bytes behind it. -/
theorem read_bytes (b : UInt8) (s : Bytes) :
    ∃ u v, s = u ++ v ∧ (read b s).bytes = b :: u ∧ ∀ c ∈ u, isLater c = true := by
  have halone : ∃ u v, s = u ++ v ∧ [b] = b :: u ∧ ∀ c ∈ u, isLater c = true :=
    ⟨[], s, rfl, rfl, List.forall_mem_nil _⟩
  have hlow := le_secondBounds b
  have hhigh := secondBounds_le b
  fun_cases read b s
  -- a character of two, of three and of four bytes; all others are one byte
  case case2 hc => exact ⟨[_], _, rfl, rfl, List.forall_mem_singleton.mpr hc⟩
  case case5 hbounds _ _ _ c d t h =>
    rw [Bool.and_eq_true] at h
    rw [hbounds] at hlow hhigh
    have hc : isLater c = true := isLater_of_within hlow hhigh h.1
    have hd : isLater d = true := h.2
    exact ⟨[c, d], t, rfl, rfl, by simp [hc, hd]⟩
  case case8 hbounds _ _ _ _ c d e t h =>
    rw [Bool.and_eq_true, Bool.and_eq_true] at h
    rw [hbounds] at hlow hhigh
    have hc : isLater c = true := isLater_of_within hlow hhigh h.1.1
    have hd : isLater d = true := h.1.2
    have he : isLater e = true := h.2
    exact ⟨[c, d, e], t, rfl, rfl, by simp [hc, hd, he]⟩
  all_goals exact halone

/-- What follows the bytes of a character has no part in it. -/
theorem read_append {b : UInt8} {u t : Bytes}
    (h : (read b (u ++ t)).bytes.length ≤ u.length + 1) : read b (u ++ t) = read b u := by
  -- with three bytes at hand, no reading looks any further
  rcases u with _ | ⟨c, _ | ⟨d, _ | ⟨e, u⟩⟩⟩
  · rcases t with _ | ⟨c, _ | ⟨d, _ | ⟨e, t⟩⟩⟩ <;> simp only [List.nil_append, read] at h ⊢ <;>
      split_ifs at h ⊢ <;> simp_all
  · rcases t with _ | ⟨d, _ | ⟨e, t⟩⟩ <;>
      simp only [List.cons_append, List.nil_append, read] at h ⊢ <;> split_ifs at h ⊢ <;> simp_all
  · rcases t with _ | ⟨e, t⟩
    · rfl
    · simp only [List.cons_append, List.nil_append, read] at h ⊢
      split_ifs at h ⊢ <;> simp_all
  · rfl

/-- No character goes on across a byte that is no later one. -/
theorem read_append_lead {s : Bytes} (hs : s.head?.any isLater = false) (b : UInt8) (u : Bytes) :
    read b (u ++ s) = read b u := by
  apply read_append
  obtain ⟨w, v, hsplit, hbytes, hlater⟩ := read_bytes b (u ++ s)
  rw [hbytes, List.length_cons, Nat.add_le_add_iff_right]
  by_contra hlt
  -- otherwise the first byte of `s` is one of the character
  have hprefix : u <+: w := by
    refine List.prefix_of_prefix_length_le ⟨s, rfl⟩ ⟨v, hsplit.symm⟩ ?_
    omega
  obtain ⟨x, rfl⟩ := hprefix
  rw [List.append_assoc] at hsplit
  obtain rfl := List.append_cancel_left hsplit
  cases x with
  | nil => simp at hlt
  | cons c x =>
    have hc : isLater c = true := hlater c (by simp)
    rw [List.cons_append, List.head?_cons, Option.any_some, hc] at hs
    cases hs

end Rune

namespace Bytes

/-! ## All characters -/

theorem runesFrom_eq_runes (skip : Nat) (s : Bytes) : runesFrom skip s = runes (s.drop skip) := by
  induction s generalizing skip with
  | nil => cases skip <;> rfl
  | cons b s ih =>
    cases skip with
    | zero => rfl
    | succ skip => exact ih skip

@[simp] theorem runes_nil : runes [] = [] := rfl

theorem runes_cons {b : UInt8} {s u v : Bytes} (hsplit : s = u ++ v)
    (hbytes : (Rune.read b s).bytes = b :: u) : runes (b :: s) = Rune.read b s :: runes v := by
  rw [runes, runesFrom, runesFrom_eq_runes, hbytes, hsplit, List.length_cons, Nat.add_sub_cancel,
    List.drop_left]

theorem runes_ascii {b : UInt8} (hb : b < 0x80) (s : Bytes) :
    runes (b :: s) = ⟨b.toNat, [b]⟩ :: runes s := by
  have hread := Rune.read_ascii hb s
  have hcons : runes (b :: s) = Rune.read b s :: runes s :=
    runes_cons (List.nil_append s).symm (congrArg Rune.bytes hread)
  rw [hcons, hread]

theorem runes_ne_nil {s : Bytes} (h : s ≠ []) : runes s ≠ [] := by
  cases s with
  | nil => exact absurd rfl h
  | cons b s => exact List.cons_ne_nil _ _

/-- Induction on a text, one character at a time. -/
@[elab_as_elim]
theorem rune_induction {motive : Bytes → Prop} (nil : motive [])
    (cons : ∀ b u v, (Rune.read b (u ++ v)).bytes = b :: u → motive v → motive (b :: (u ++ v)))
    (s : Bytes) : motive s := by
  induction hn : s.length using Nat.strongRecOn generalizing s with
  | _ n ih =>
    cases s with
    | nil => exact nil
    | cons b s =>
      obtain ⟨u, v, rfl, hbytes, -⟩ := Rune.read_bytes b s
      refine cons b u v hbytes (ih v.length ?_ v rfl)
      rw [← hn, List.length_cons, List.length_append]
      omega

@[simp] theorem ofRunes_append (a b : List Rune) : ofRunes (a ++ b) = ofRunes a ++ ofRunes b :=
  List.flatMap_append

theorem ofRunes_cons (r : Rune) (a : List Rune) : ofRunes (r :: a) = r.bytes ++ ofRunes a :=
  List.flatMap_cons

/-- No byte is lost. -/
@[simp] theorem ofRunes_runes (s : Bytes) : ofRunes (runes s) = s := by
  induction s using rune_induction with
  | nil => rfl
  | cons b u v hbytes ih =>
    rw [runes_cons rfl hbytes, ofRunes_cons, hbytes, ih, List.cons_append]

/-! ## Cuts -/

/-- Behind a cut between two characters the reading goes on as before. -/
theorem runes_ofRunes_right {s : Bytes} {a b : List Rune} (h : runes s = a ++ b) :
    runes (ofRunes b) = b := by
  induction s using rune_induction generalizing a with
  | nil =>
    obtain ⟨-, rfl⟩ := List.append_eq_nil_iff.mp h.symm
    rfl
  | cons c u v hbytes ih =>
    cases a with
    | nil =>
      rw [List.nil_append] at h
      rw [← h, ofRunes_runes]
    | cons r a =>
      rw [runes_cons rfl hbytes, List.cons_append] at h
      exact ih (List.cons.inj h).2

/-- Up to a cut between two characters the reading needs nothing from behind it. -/
theorem runes_ofRunes_left {s : Bytes} {a b : List Rune} (h : runes s = a ++ b) :
    runes (ofRunes a) = a := by
  induction s using rune_induction generalizing a with
  | nil =>
    obtain ⟨rfl, -⟩ := List.append_eq_nil_iff.mp h.symm
    rfl
  | cons c u v hbytes ih =>
    cases a with
    | nil => rfl
    | cons r a =>
      rw [runes_cons rfl hbytes, List.cons_append] at h
      obtain ⟨rfl, htail⟩ := List.cons.inj h
      have hv : v = ofRunes a ++ ofRunes b := by
        rw [← ofRunes_append, ← htail, ofRunes_runes]
      -- the first character is the same whether or not the bytes of `b` follow
      have hfirst : Rune.read c (u ++ v) = Rune.read c (u ++ ofRunes a) := by
        rw [hv, ← List.append_assoc]
        apply Rune.read_append
        rw [List.append_assoc, ← hv, hbytes, List.length_cons, List.length_append]
        omega
      rw [ofRunes_cons, hbytes, List.cons_append]
      rw [hfirst] at hbytes ⊢
      rw [runes_cons rfl hbytes, ih htail]

/-- A text may be cut in front of the first byte of a character. -/
theorem runes_append_lead {s : Bytes} (hs : s.head?.any Rune.isLater = false) (u : Bytes) :
    runes (u ++ s) = runes u ++ runes s := by
  induction u using rune_induction with
  | nil => rfl
  | cons b u v hbytes ih =>
    have hread := Rune.read_append_lead hs b (u ++ v)
    rw [List.append_assoc] at hread
    rw [List.cons_append, List.append_assoc, runes_cons rfl (hread ▸ hbytes), hread, ih,
      runes_cons rfl hbytes, List.cons_append]

/-- A text may be cut in front of an ASCII byte. -/
theorem runes_append {s : Bytes} (hs : s.head?.all (· < 0x80) = true) (u : Bytes) :
    runes (u ++ s) = runes u ++ runes s := by
  refine runes_append_lead ?_ u
  cases s with
  | nil => rfl
  | cons b s =>
    have hb : b < 0x80 := by simpa using hs
    exact Rune.isLater_of_ascii hb

/-- A text may be cut behind an ASCII byte. -/
theorem runes_append_of_last {u : Bytes} (hu : u.getLast?.all (· < 0x80) = true) (s : Bytes) :
    runes (u ++ s) = runes u ++ runes s := by
  rcases List.eq_nil_or_concat u with rfl | ⟨v, c, rfl⟩
  · rfl
  · have hc : c < 0x80 := by simpa using hu
    rw [List.concat_eq_append, List.append_assoc, List.singleton_append,
      runes_append (by simpa using hc), runes_append (by simpa using hc), runes_ascii hc,
      runes_ascii hc, runes_nil, List.append_assoc, List.singleton_append]

end Bytes

end ClassOutline
