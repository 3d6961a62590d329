import ClassOutline.Proofs.Text.Search

/-!
# The words of a text

A word is a longest run of word bytes. Most forms begin with a keyword and take it for one only
where it is a word of its own: behind a byte that belongs to no word, and in front of a separating
byte. Such a form is silent in every text that has none of its keywords among its words
(`Form.LedBy.silent`), and the words of a text that is put together with separators between the
parts are the words of the parts (`words_append_sep`).
-/

namespace ClassOutline

namespace Bytes

/-! ## Words -/

theorem isSpace_of_isWord {b : UInt8} (h : isWord b = true) : isSpace b = false := by
  simp [isWord, isLetter, isDigit, isSpace, UInt8.le_iff_toNat_le, ← UInt8.toNat_inj] at h ⊢
  omega

/-- A word begins with no separating byte. -/
theorem IsName.head_isSpace {w : Bytes} (hw : w.IsName) (s : Bytes) :
    (w ++ s).head?.any isSpace = false := by
  obtain ⟨hne, hword⟩ := hw
  cases w with
  | nil => exact absurd rfl hne
  | cons b w => exact isSpace_of_isWord (hword b List.mem_cons_self)

/-- The words of a text with `prev` before it: one for each place where a word begins. -/
def wordsFrom (prev : Option UInt8) : Bytes → List Bytes
  | [] => []
  | b :: s =>
    if Read.wordStart prev && isWord b then (b :: s).takeWhile isWord :: wordsFrom (some b) s
    else wordsFrom (some b) s

/-- The longest runs of word bytes in a text, in order. -/
def words (s : Bytes) : List Bytes := wordsFrom none s

/-- Of the byte before, only its class matters. -/
theorem wordsFrom_eq_words {prev : Option UInt8} (h : Read.wordStart prev = true) (s : Bytes) :
    wordsFrom prev s = words s := by
  cases s with
  | nil => rfl
  | cons b s =>
    rw [words, wordsFrom, wordsFrom, h]
    rfl

theorem wordsFrom_sep {c : UInt8} (hc : isWord c = false) (prev : Option UInt8) (s : Bytes) :
    wordsFrom prev (c :: s) = words s := by
  have hstart : Read.wordStart (some c) = true := by simp [Read.wordStart, hc]
  rw [wordsFrom, hc, Bool.and_false, if_neg Bool.false_ne_true, wordsFrom_eq_words hstart]

@[simp] theorem words_nil : words [] = [] := rfl

theorem words_sep {c : UInt8} (hc : isWord c = false) (s : Bytes) : words (c :: s) = words s :=
  wordsFrom_sep hc none s

/-- A separator cuts the words of a text in two. -/
theorem wordsFrom_append_sep {c : UInt8} (hc : isWord c = false) (prev : Option UInt8)
    (u s : Bytes) : wordsFrom prev (u ++ c :: s) = wordsFrom prev u ++ words s := by
  induction u generalizing prev with
  | nil => rw [List.nil_append, wordsFrom_sep hc, wordsFrom, List.nil_append]
  | cons b u ih =>
    -- the word that begins at `b` ends before the separator at the latest
    have hrun : (b :: (u ++ c :: s)).takeWhile isWord = (b :: u).takeWhile isWord := by
      rw [← List.cons_append, List.takeWhile_append]
      split
      · next hlen =>
        have hall : (b :: u).takeWhile isWord = b :: u :=
          (List.takeWhile_prefix _).eq_of_length hlen
        rw [hall, List.takeWhile_cons_of_neg (by simp [hc]), List.append_nil]
      · rfl
    rw [List.cons_append, wordsFrom, wordsFrom, ih, hrun]
    split
    · rw [List.cons_append]
    · rfl

theorem words_append_sep {c : UInt8} (hc : isWord c = false) (u s : Bytes) :
    words (u ++ c :: s) = words u ++ words s :=
  wordsFrom_append_sep hc none u s

/-- The words of a text that ends its last word itself, and of what follows it. -/
theorem wordsFrom_append {prev : Option UInt8} {u : Bytes}
    (hlast : Read.wordStart (lastAfter prev u) = true) (s : Bytes) :
    wordsFrom prev (u ++ s) = wordsFrom prev u ++ words s := by
  -- the last byte of `u` is a separator
  rcases List.eq_nil_or_concat u with rfl | ⟨v, c, rfl⟩
  · exact wordsFrom_eq_words hlast s
  · have hc : isWord c = false := by simpa [Read.wordStart] using hlast
    rw [List.concat_eq_append, List.append_assoc, List.singleton_append, wordsFrom_append_sep hc,
      wordsFrom_append_sep hc, words_nil, List.append_nil]

theorem words_append {u : Bytes} (hlast : Read.wordStart (lastAfter none u) = true) (s : Bytes) :
    words (u ++ s) = words u ++ words s :=
  wordsFrom_append hlast s

/-- The words of texts one after another, if each of them ends its last word itself. -/
theorem words_flatMap {α : Type} {f : α → Bytes} {l : List α}
    (hlast : ∀ a ∈ l, Read.wordStart (lastAfter none (f a)) = true) (s : Bytes) :
    words (l.flatMap f ++ s) = (l.flatMap fun a => words (f a)) ++ words s := by
  induction l with
  | nil => rfl
  | cons a l ih =>
    rw [List.flatMap_cons, List.append_assoc, words_append (hlast a List.mem_cons_self),
      ih fun b hb => hlast b (List.mem_cons_of_mem _ hb), List.flatMap_cons, List.append_assoc]

theorem wordsFrom_inside {prev : Option UInt8} (hprev : Read.wordStart prev = false) {w : Bytes}
    (hw : ∀ b ∈ w, isWord b = true) : wordsFrom prev w = [] := by
  induction w generalizing prev with
  | nil => rfl
  | cons b w ih =>
    have hb : isWord b = true := hw b List.mem_cons_self
    rw [wordsFrom, hprev, Bool.false_and, if_neg Bool.false_ne_true]
    exact ih (by simp [Read.wordStart, hb]) fun c hc => hw c (List.mem_cons_of_mem _ hc)

/-- A text of word bytes alone is one word. -/
theorem words_of_word {w : Bytes} (hne : w ≠ []) (hw : ∀ b ∈ w, isWord b = true) :
    words w = [w] := by
  cases w with
  | nil => exact absurd rfl hne
  | cons b w =>
    have hb : isWord b = true := hw b List.mem_cons_self
    have hrest : wordsFrom (some b) w = [] :=
      wordsFrom_inside (by simp [Read.wordStart, hb]) fun c hc => hw c (List.mem_cons_of_mem _ hc)
    have hrun : (b :: w).takeWhile isWord = b :: w := by
      simpa using Read.takeWhile_append_stop (s := []) hw rfl
    rw [words, wordsFrom, hb, hrest, hrun]
    rfl

end Bytes

/-! ## Forms that begin with a keyword -/

namespace Form

variable {α : Type} {form : Form α}

/-- The form is read only where one of some words begins, and stands alone. -/
def LedBy (form : Form α) (keywords : List Bytes) : Prop :=
  ∀ prev s r, form prev s = some r →
    Read.wordStart prev = true ∧ s.takeWhile Bytes.isWord ∈ keywords ∧
      s.takeWhile Bytes.isWord ≠ []

/-- Such a form is silent in a text that has none of its keywords among its words. The text has to
end its last word itself. -/
theorem LedBy.silent {keywords : List Bytes} (hled : form.LedBy keywords) {prev : Option UInt8}
    {u : Bytes} (hlast : Read.wordStart (Bytes.lastAfter prev u) = true)
    (hfree : ∀ w ∈ Bytes.wordsFrom prev u, w ∉ keywords) (s : Bytes) : form.Silent prev u s := by
  induction u generalizing prev with
  | nil => trivial
  | cons b u ih =>
    rw [Bytes.wordsFrom] at hfree
    refine ⟨?here, ih hlast ?later⟩
    case here =>
      cases hr : form prev (b :: (u ++ s)) with
      | none => rfl
      | some r =>
        obtain ⟨hprev, hmem, hne⟩ := hled prev _ r hr
        have hb : Bytes.isWord b = true := by
          cases hword : Bytes.isWord b with
          | true => rfl
          | false => exact absurd (List.takeWhile_cons_of_neg (by simp [hword])) hne
        -- the word at `b` does not reach the end of `u`, where a byte of no word stands
        have hrun : (b :: (u ++ s)).takeWhile Bytes.isWord = (b :: u).takeWhile Bytes.isWord := by
          rw [← List.cons_append, List.takeWhile_append, if_neg]
          intro hlen
          have hall : (b :: u).takeWhile Bytes.isWord = b :: u :=
            (List.takeWhile_prefix _).eq_of_length hlen
          obtain ⟨c, hc, hcLast⟩ := Bytes.lastAfter_mem (List.cons_ne_nil b u) prev
          rw [← hall] at hc
          rw [hcLast] at hlast
          simp [Read.wordStart, Read.of_mem_takeWhile hc] at hlast
        rw [hprev, hb, Bool.and_self, if_pos rfl] at hfree
        rw [hrun] at hmem
        exact absurd hmem (hfree _ List.mem_cons_self)
    case later =>
      intro w hw
      split at hfree
      · exact hfree w (List.mem_cons_of_mem _ hw)
      · exact hfree w hw

/-- A keyword at which the form is not read all the same does not break the silence. -/
theorem LedBy.silent_after_miss {keywords : List Bytes} (hled : form.LedBy keywords)
    {prev : Option UInt8} {w r s : Bytes} (hw : ∀ b ∈ w, Bytes.isWord b = true)
    (hmiss : form prev (w ++ 0x20 :: (r ++ s)) = none)
    (hlast : Read.wordStart (Bytes.lastAfter (some 0x20) r) = true)
    (hfree : ∀ k ∈ Bytes.words r, k ∉ keywords) : form.Silent prev (w ++ 0x20 :: r) s := by
  cases w with
  | nil =>
    refine ⟨hmiss, hled.silent hlast ?_ s⟩
    rw [Bytes.wordsFrom_eq_words rfl]
    exact hfree
  | cons b w =>
    have hb : Bytes.isWord b = true := hw b List.mem_cons_self
    have hinside : Bytes.wordsFrom (some b) w = [] :=
      Bytes.wordsFrom_inside (by simp [Read.wordStart, hb]) fun c hc =>
        hw c (List.mem_cons_of_mem _ hc)
    rw [List.cons_append]
    refine ⟨?_, hled.silent ?_ ?_ s⟩
    · simpa using hmiss
    · simpa using hlast
    · rw [Bytes.wordsFrom_append_sep rfl, hinside, List.nil_append]
      exact hfree

end Form

/-- A keyword with separating bytes behind it is a word of its own. -/
theorem Read.takeWhile_keyword {k t t' : Bytes} (hk : ∀ b ∈ k, Bytes.isWord b = true)
    (hsp : spaces1 t = some t') : (k ++ t).takeWhile Bytes.isWord = k := by
  obtain ⟨b, u, rfl, hb, -⟩ := spaces1_eq_some hsp
  refine takeWhile_append_stop hk ?_
  simp only [Bytes.isSpace, Bool.or_eq_true, beq_iff_eq] at hb
  rcases hb with (((rfl | rfl) | rfl) | rfl) | rfl <;> rfl

/-- A form that begins with one keyword and space behind it is led by that keyword. -/
theorem Form.LedBy.of_keyword {α : Type} {form : Form α} {k : String}
    (hk : (Bytes.ofString k).all Bytes.isWord = true) (hne : Bytes.ofString k ≠ [])
    (h : ∀ prev s r, form prev s = some r → Read.wordStart prev = true ∧
      ∃ t t', Read.literal k s = some t ∧ Read.spaces1 t = some t') :
    form.LedBy [Bytes.ofString k] := by
  intro prev s r hr
  obtain ⟨hprev, t, t', hlit, hsp⟩ := h prev s r hr
  rw [Read.literal_eq_some hlit, Read.takeWhile_keyword (List.all_eq_true.mp hk) hsp]
  exact ⟨hprev, List.mem_singleton_self _, hne⟩

/-! ## Names -/

/-- A name in a source text: one word, and none of some reserved words. -/
structure Name (reserved : List Bytes) where
  text : Bytes
  ne_nil : text ≠ []
  isWord : ∀ b ∈ text, Bytes.isWord b = true
  notReserved : text ∉ reserved

namespace Name

variable {reserved : List Bytes} (n : Name reserved)

theorem words_text : Bytes.words n.text = [n.text] := Bytes.words_of_word n.ne_nil n.isWord

theorem word_text {s : Bytes} (hs : s.head?.any Bytes.isWord = false) :
    Read.word (n.text ++ s) = some (n.text, s) :=
  Read.word_append n.ne_nil n.isWord hs

theorem not_mem_text {c : UInt8} (hc : Bytes.isWord c = false) : c ∉ n.text := by
  intro hmem
  rw [n.isWord c hmem] at hc
  cases hc

/-- A name begins with a word byte, whatever follows. -/
theorem head_text (s : Bytes) : ∃ b t, n.text ++ s = b :: t ∧ Bytes.isWord b = true := by
  cases htext : n.text with
  | nil => exact absurd htext n.ne_nil
  | cons b t =>
    have hb : b ∈ n.text := by rw [htext]; exact List.mem_cons_self
    exact ⟨b, t ++ s, rfl, n.isWord b hb⟩

theorem head_isSpace (s : Bytes) : (n.text ++ s).head?.any Bytes.isSpace = false := by
  obtain ⟨b, t, htext, hb⟩ := n.head_text s
  rw [htext]
  exact Bytes.isSpace_of_isWord hb

end Name

end ClassOutline
