import ClassOutline.Proofs.Text.Reading
import ClassOutline.Remote.Url

/-!
# Web addresses

What can be said of the parts of an address without taking it apart again. An address that is
written plainly, a word in front of a host and a path without escapes, is read as these three
(`Url.parse_plain`). And whatever an address was, its host has no slash, since a slash ends the
authority and no escape in a host stands for one (`Url.slash_not_mem_host`).
-/

namespace ClassOutline

/-! ## Steps that may fail -/

section Steps

variable {ε α β : Type} {x : Except ε α}

theorem exists_of_map_eq_ok {f : α → β} {b : β} (h : x.map f = .ok b) :
    ∃ a, x = .ok a ∧ f a = b := by
  cases x with
  | error e => cases h
  | ok a => exact ⟨a, rfl, Except.ok.inj h⟩

theorem exists_of_bind_eq_ok {f : α → Except ε β} {b : β} (h : (x >>= f) = .ok b) :
    ∃ a, x = .ok a ∧ f a = .ok b := by
  cases x with
  | error e => cases h
  | ok a => exact ⟨a, rfl, h⟩

theorem exists_of_mapError_eq_ok {ε' : Type} {f : ε → ε'} {a : α} (h : x.mapError f = .ok a) :
    x = .ok a := by
  cases x with
  | error e => cases h
  | ok a => exact congrArg _ (Except.ok.inj h)

end Steps

namespace Url

variable {rules : Rules} {s t : Bytes} {c : UInt8}

/-! ## Percent escapes -/

theorem unescape_cons {b : UInt8} (hb : b ≠ 0x25) (s : Bytes) :
    unescape rules (b :: s) =
      if rules.plain b then (unescape rules s).map (b :: ·) else .error (.badHost [b]) := by
  rw [unescape]
  · simp [hb]
  · exact fun _ _ _ h => absurd h hb

/-- A text without escapes stands for itself. -/
theorem unescape_plain (h : ∀ b ∈ s, b ≠ 0x25 ∧ rules.plain b = true) :
    unescape rules s = .ok s := by
  induction s with
  | nil => rfl
  | cons b s ih =>
    obtain ⟨⟨hb, hplain⟩, hs⟩ := List.forall_mem_cons.mp h
    rw [unescape_cons hb, if_pos hplain, ih hs]
    rfl

/-- A byte that no escape may stand for is in the meaning of a text only if it is in the text. -/
theorem not_mem_unescape (hc : rules.escapable c = false) (h : unescape rules s = .ok t)
    (hs : c ∉ s) : c ∉ t := by
  fun_induction unescape rules s generalizing t with
  | case1 =>
    obtain rfl : [] = t := Except.ok.inj h
    exact hs
  | case2 a b s x y _ _ byte hescapable =>
    rename_i ih
    obtain ⟨u, hu, rfl⟩ := exists_of_map_eq_ok h
    have hbyte : c ≠ byte := by
      rintro rfl
      rw [hc] at hescapable
      cases hescapable
    simp only [List.mem_cons, not_or] at hs
    exact List.not_mem_cons_of_ne_of_not_mem hbyte (ih hu hs.2.2.2)
  | case6 b s hshort hb hplain ih =>
    obtain ⟨u, hu, rfl⟩ := exists_of_map_eq_ok h
    rw [List.mem_cons, not_or] at hs
    exact List.not_mem_cons_of_ne_of_not_mem hs.1 (ih hu hs.2)
  | case3 | case4 | case5 | case7 => cases h

/-! ## Cutting -/

theorem splitAt_of_not_mem (h : c ∉ s) : splitAt c s = (s, []) := by
  have htake := Read.takeWhile_append_stop (s := []) (Read.bne_of_not_mem h) rfl
  have hdrop := Read.dropWhile_append_stop (s := []) (Read.bne_of_not_mem h) rfl
  rw [List.append_nil] at htake hdrop
  rw [splitAt, htake, hdrop]
  rfl

theorem splitLast?_of_not_mem (h : c ∉ s) : splitLast? c s = none := by
  have htake := Read.takeWhile_append_stop (s := [])
    (Read.bne_of_not_mem (u := s.reverse) (by simpa using h)) rfl
  rw [List.append_nil] at htake
  simp [splitLast?, htake]

/-- Apart from the separator, the two parts of a text have the bytes of the text. -/
theorem not_mem_of_splitLast? {sep : UInt8} {u v : Bytes} (h : splitLast? sep s = some (u, v))
    (hsep : c ≠ sep) (hs : c ∉ s) : c ∉ u ∧ c ∉ v := by
  simp only [splitLast?] at h
  split at h
  · cases h
  · obtain ⟨rfl, rfl⟩ := Prod.mk.inj (Option.some.inj h)
    refine ⟨fun hmem => hs (List.mem_of_mem_take hmem), ?_⟩
    refine List.not_mem_cons_of_ne_of_not_mem hsep fun hmem => hs ?_
    rw [List.mem_reverse] at hmem
    exact List.mem_reverse.mp ((List.takeWhile_sublist _).subset hmem)

theorem zoneAt_go_eq_some {before u v : Bytes} (h : zoneAt.go before s = some (u, v)) :
    u ++ v = before.reverse ++ s := by
  induction s generalizing before with
  | nil => cases h
  | cons b s ih =>
    rw [zoneAt.go] at h
    split at h
    · obtain ⟨rfl, rfl⟩ := Prod.mk.inj (Option.some.inj h)
      rfl
    · rw [ih h]
      simp

/-- A zone is cut off behind the text in front of it. -/
theorem zoneAt_eq_some {u v : Bytes} (h : zoneAt s = some (u, v)) : s = u ++ v :=
  (zoneAt_go_eq_some h).symm

/-! ## The host -/

section Host

variable {host : Bytes}

/-- No slash comes into a host by reading it. -/
theorem slash_not_mem_readHost (h : readHost s = .ok host) (hs : 0x2F ∉ s) : 0x2F ∉ host := by
  have hplain : ∀ {u t : Bytes}, unescape hostRules u = .ok t → 0x2F ∉ u → 0x2F ∉ t :=
    not_mem_unescape rfl
  simp only [readHost] at h
  split at h
  · -- an address in brackets is read in up to three parts
    split at h
    · cases h
    · rename_i address rest hbracket
      obtain ⟨haddress, hrest⟩ := not_mem_of_splitLast? hbracket (by decide) hs
      split at h
      · split at h
        · rename_i front zone hzone
          obtain rfl := zoneAt_eq_some hzone
          rw [List.mem_append, not_or] at haddress
          obtain ⟨a, ha, h⟩ := exists_of_bind_eq_ok h
          obtain ⟨b, hb, h⟩ := exists_of_bind_eq_ok h
          obtain ⟨d, hd, h⟩ := exists_of_bind_eq_ok h
          obtain rfl : a ++ b ++ d = host := Except.ok.inj h
          simp only [List.mem_append, not_or]
          exact ⟨⟨hplain ha haddress.1, not_mem_unescape rfl hb haddress.2⟩, hplain hd hrest⟩
        · exact hplain h hs
      · cases h
  · split at h
    · split at h
      · exact hplain h hs
      · cases h
    · exact hplain h hs

theorem slash_not_mem_readAuthority (h : readAuthority s = .ok host) (hs : 0x2F ∉ s) :
    0x2F ∉ host := by
  simp only [readAuthority] at h
  split at h
  · exact slash_not_mem_readHost h hs
  · rename_i user rest huser
    have hrest := (not_mem_of_splitLast? huser (by decide) hs).2
    obtain ⟨host', hread, h⟩ := exists_of_bind_eq_ok h
    have hhost := slash_not_mem_readHost hread fun hmem => hrest (List.mem_of_mem_drop hmem)
    -- what is done with the user leaves the host alone
    split at h
    · cases h
    · obtain ⟨_, _, h⟩ := exists_of_bind_eq_ok h
      obtain ⟨_, _, h⟩ := exists_of_bind_eq_ok h
      obtain rfl : host' = host := Except.ok.inj h
      exact hhost

theorem slash_not_mem_ofPlain {url : Url} (h : ofPlain s = .ok url) : 0x2F ∉ url.host := by
  have hnone : ∀ {url' : Url}, url'.host = [] → url' = url → 0x2F ∉ url.host := by
    rintro url' hhost rfl
    rw [hhost]
    exact List.not_mem_nil
  simp only [ofPlain] at h
  split at h
  · cases h
  split at h
  · exact hnone rfl (Except.ok.inj h)
  obtain ⟨⟨word, rest⟩, -, h⟩ := exists_of_bind_eq_ok h
  dsimp only at h
  split at h
  · -- without a slash in front there is no host
    split at h
    · exact hnone rfl (Except.ok.inj h)
    split at h
    · cases h
    obtain ⟨_, _, h⟩ := exists_of_bind_eq_ok h
    exact hnone rfl (Except.ok.inj h)
  split at h
  · -- the authority ends in front of the first slash
    obtain ⟨host, hread, h⟩ := exists_of_bind_eq_ok h
    obtain ⟨_, _, h⟩ := exists_of_bind_eq_ok h
    obtain rfl := Except.ok.inj h
    refine slash_not_mem_readAuthority hread fun hmem => ?_
    have hbefore := Read.of_mem_takeWhile hmem
    simp at hbefore
  · obtain ⟨_, _, h⟩ := exists_of_bind_eq_ok h
    exact hnone rfl (Except.ok.inj h)

/-- **The host of an address has no slash.** -/
theorem slash_not_mem_host {url : Url} (h : parse s = .ok url) : 0x2F ∉ url.host := by
  simp only [parse] at h
  obtain ⟨url', hread, h⟩ := exists_of_bind_eq_ok h
  obtain ⟨_, _, h⟩ := exists_of_bind_eq_ok h
  obtain rfl : url' = url := Except.ok.inj h
  exact slash_not_mem_ofPlain (exists_of_mapError_eq_ok hread)

end Host

/-! ## Addresses written plainly -/

/-- A byte of a plain host: a letter, a digit, a dash or a dot. -/
def isPlainHostByte (b : UInt8) : Bool :=
  Bytes.isLetter b || Bytes.isDigit b || b == 0x2D || b == 0x2E

/-- A byte of a plain name: one of a host, or an underscore. -/
def isPlainNameByte (b : UInt8) : Bool := isPlainHostByte b || b == 0x5F

/-- A byte of a plain path: one of a name, or a slash. -/
def isPlainPathByte (b : UInt8) : Bool := isPlainNameByte b || b == 0x2F

theorem isPlainPathByte_of_host {b : UInt8} (h : isPlainHostByte b = true) :
    isPlainPathByte b = true := by
  simp [isPlainPathByte, isPlainNameByte, h]

theorem isHostByte_of_plain {b : UInt8} (h : isPlainHostByte b = true) : isHostByte b = true := by
  simp only [isPlainHostByte, Bool.or_eq_true, beq_iff_eq] at h
  rcases h with ((h | h) | rfl) | rfl
  · simp [isHostByte, h]
  · simp [isHostByte, h]
  · rfl
  · rfl

/-- The bytes with a meaning of their own in an address are not plain. -/
theorem ne_of_isPlainPathByte {b : UInt8} (h : isPlainPathByte b = true) :
    b ∉ ([0x23, 0x25, 0x3A, 0x3F, 0x40, 0x5B] : Bytes) ∧ isControl b = false := by
  simp [isPlainPathByte, isPlainNameByte, isPlainHostByte, Bytes.isLetter, Bytes.isDigit, isControl,
    UInt8.le_iff_toNat_le, UInt8.lt_iff_toNat_lt, ← UInt8.toNat_inj] at h ⊢
  omega

variable {word host path : Bytes}

theorem splitScheme_word (hne : word ≠ []) (hword : ∀ b ∈ word, Bytes.isLetter b = true) (s : Bytes) :
    splitScheme (word ++ 0x3A :: s) = .ok (word, s) := by
  have hletter : ∀ b, Bytes.isLetter b = true →
      (Bytes.isDigit b || b == 0x2B || b == 0x2D || b == 0x2E) = false := by
    intro b hb
    simp [Bytes.isLetter, Bytes.isDigit, UInt8.le_iff_toNat_le, ← UInt8.toNat_inj] at hb ⊢
    omega
  obtain ⟨b, rest, rfl⟩ := List.exists_cons_of_ne_nil hne
  have htake := Read.takeWhile_append_stop (w := b :: rest) (s := 0x3A :: s)
    (p := fun b => Bytes.isLetter b || (Bytes.isDigit b || b == 0x2B || b == 0x2D || b == 0x2E))
    (fun c hc => by simp [hword c hc]) rfl
  simp only [splitScheme, htake, List.drop_left, hletter b (hword b List.mem_cons_self)]
  rfl

/-- A plain host is read as it is. -/
theorem readAuthority_plain (h : ∀ b ∈ host, isPlainHostByte b = true) :
    readAuthority host = .ok host := by
  have hmark : ∀ c ∈ ([0x25, 0x3A, 0x40, 0x5B] : Bytes), c ∉ host := by
    intro c hc hmem
    have hother := (ne_of_isPlainPathByte (isPlainPathByte_of_host (h c hmem))).1
    simp only [List.mem_cons, List.not_mem_nil, or_false] at hc
    rcases hc with rfl | rfl | rfl | rfl <;> exact hother (by decide)
  have hbracket : (host.head? == some 0x5B) = false := by
    refine beq_eq_false_iff_ne.mpr fun hhead => hmark 0x5B (by decide) (List.mem_of_mem_head? hhead)
  have hread : unescape hostRules host = .ok host := by
    refine unescape_plain fun b hb => ⟨?_, isHostByte_of_plain (h b hb)⟩
    rintro rfl
    exact hmark 0x25 (by decide) hb
  rw [readAuthority, splitLast?_of_not_mem (hmark 0x40 (by decide))]
  simp only [readHost, hbracket, splitLast?_of_not_mem (hmark 0x3A (by decide)), hread]
  rfl

theorem unescape_path (h : ∀ b ∈ path, isPlainPathByte b = true) :
    unescape anything path = .ok path := by
  refine unescape_plain fun b hb => ⟨?_, rfl⟩
  rintro rfl
  exact (ne_of_isPlainPathByte (h _ hb)).1 (by decide)

/-- What follows the scheme of a plain address: its host up to the first slash, then its path. -/
theorem cut_authority (hhost : ∀ b ∈ host, isPlainHostByte b = true)
    (hslash : path.head? = some 0x2F) :
    (host ++ path).takeWhile (· != 0x2F) = host ∧ (host ++ path).dropWhile (· != 0x2F) = path := by
  have hmem : (0x2F : UInt8) ∉ host := fun hmem => absurd (hhost _ hmem) (by decide)
  have hstop : path.head?.any (· != 0x2F) = false := by simp [hslash]
  exact ⟨Read.takeWhile_append_stop (Read.bne_of_not_mem hmem) hstop,
    Read.dropWhile_append_stop (Read.bne_of_not_mem hmem) hstop⟩

/-- **A plain address is read as the word, the host and the path that it is made of.** -/
theorem parse_plain (hne : word ≠ []) (hword : ∀ b ∈ word, Bytes.isLetter b = true)
    (hhost : ∀ b ∈ host, isPlainHostByte b = true) (hpath : ∀ b ∈ path, isPlainPathByte b = true)
    (hslash : path.head? = some 0x2F) :
    parse (word ++ 0x3A :: 0x2F :: 0x2F :: (host ++ path)) =
      .ok ⟨word.map Bytes.lowerByte, host, path⟩ := by
  -- apart from the colon there are plain bytes only
  have hrest : ∀ b ∈ 0x2F :: 0x2F :: (host ++ path), isPlainPathByte b = true := by
    simp only [List.forall_mem_cons, List.forall_mem_append]
    exact ⟨rfl, rfl, fun b hb => isPlainPathByte_of_host (hhost b hb), hpath⟩
  have hall : ∀ b ∈ word ++ 0x3A :: 0x2F :: 0x2F :: (host ++ path),
      b = 0x3A ∨ isPlainPathByte b = true := by
    rw [List.forall_mem_append, List.forall_mem_cons]
    refine ⟨fun b hb => .inr ?_, .inl rfl, fun b hb => .inr (hrest b hb)⟩
    simp [isPlainPathByte, isPlainNameByte, isPlainHostByte, hword b hb]
  have hfragment : (0x23 : UInt8) ∉ word ++ 0x3A :: 0x2F :: 0x2F :: (host ++ path) := fun hmem =>
    (hall _ hmem).elim (by decide) fun hplain => (ne_of_isPlainPathByte hplain).1 (by decide)
  have hquery : (0x3F : UInt8) ∉ 0x2F :: 0x2F :: (host ++ path) := fun hmem =>
    (ne_of_isPlainPathByte (hrest _ hmem)).1 (by decide)
  have hcontrol : (word ++ 0x3A :: 0x2F :: 0x2F :: (host ++ path)).any isControl = false := by
    rw [List.any_eq_false]
    intro b hb
    rcases hall b hb with rfl | hplain
    · decide
    · simp [(ne_of_isPlainPathByte hplain).2]
  have hstar : (word ++ 0x3A :: 0x2F :: 0x2F :: (host ++ path) == [0x2A]) = false := by
    rw [beq_eq_false_iff_ne]
    intro heq
    have hcolon : (0x3A : UInt8) ∈ ([0x2A] : Bytes) := heq ▸ by simp
    exact absurd hcolon (by decide)
  have hscheme : (word.map Bytes.lowerByte).isEmpty = false := by simpa using hne
  obtain ⟨htake, hdrop⟩ := cut_authority hhost hslash
  have hplain : ofPlain (word ++ 0x3A :: 0x2F :: 0x2F :: (host ++ path)) =
      .ok ⟨word.map Bytes.lowerByte, host, path⟩ := by
    simp only [ofPlain, hcontrol, hstar, splitScheme_word hne hword, bind, Except.bind, pure,
      Except.pure, splitAt_of_not_mem hquery, hscheme]
    simp [htake, hdrop, readAuthority_plain hhost, unescape_path hpath]
  rw [parse, splitAt_of_not_mem hfragment]
  simp only [hplain]
  rfl

end Url

end ClassOutline
