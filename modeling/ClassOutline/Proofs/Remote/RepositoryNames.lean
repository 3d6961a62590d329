import ClassOutline.Proofs.Remote.Addresses
import ClassOutline.Proofs.Text.Endings
import ClassOutline.Proofs.Text.OneLine
import ClassOutline.Remote.Location

/-!
# The names of a remote repository

A repository can be named in many ways: by a web address of either scheme, with or without the ending
`.git`, with slashes or further pieces behind, and by the short form (`RemoteRepository.Spelling`).
All of them mean the same repository, and so does the address that it is cloned from
(`RemoteRepository.parse_spelling`).

In the other direction, a text that is taken for a repository gives an owner and a host. Host and name
can be asked for by themselves (`IsPart`) with two exceptions, and these are all
(`RemoteRepository.parts_of_parse`): the host of a short form is taken as it stands, slashes included,
and of a web address the ending is taken off after the name was found to be there.
-/

namespace ClassOutline.RemoteRepository

open Bytes Url

/-! ## Spellings -/

/-- A plain host: letters, digits, dashes and dots. -/
structure IsHost (s : Bytes) : Prop where
  ne_nil : s ≠ []
  bytes : ∀ b ∈ s, isPlainHostByte b = true

/-- A plain owner or name: letters, digits, dashes, dots and underscores. -/
structure IsPlainName (s : Bytes) : Prop where
  ne_nil : s ≠ []
  bytes : ∀ b ∈ s, isPlainNameByte b = true

/-- What may stand behind a name in an address: slashes, and plain pieces between them. -/
inductive IsTail : Bytes → Prop where
  | nil : IsTail []
  | pieces {s : Bytes} (bytes : ∀ b ∈ s, isPlainNameByte b = true ∨ b = 0x2F) : IsTail (0x2F :: s)

/-- The ways to name a repository. -/
inductive Spelling (host owner name : Bytes) : Bytes → Prop where
  /-- A web address, with or without the ending and with anything behind. -/
  | address {scheme ending tail : Bytes} (hscheme : scheme ∈ ["https", "http"].map ofString)
      (hending : ending ∈ [[], gitEnding]) (htail : IsTail tail) :
      Spelling host owner name
        (scheme ++ ofString "://" ++ host ++ [0x2F] ++ owner ++ [0x2F] ++ name ++ ending ++ tail)
  /-- The short form, with or without the ending. -/
  | short {ending : Bytes} (hending : ending ∈ [[], gitEnding]) :
      Spelling host owner name
        (shortLead ++ host ++ [0x3A] ++ owner ++ [0x2F] ++ name ++ ending)

variable {host owner name ending tail text : Bytes} {r : RemoteRepository}

theorem isPlainPathByte_of_name {b : UInt8} (h : isPlainNameByte b = true) :
    isPlainPathByte b = true := by
  simp [isPlainPathByte, h]

theorem IsPlainName.not_mem (h : IsPlainName name) : (0x2F : UInt8) ∉ name ∧ (0x3A : UInt8) ∉ name :=
  ⟨fun hmem => absurd (h.bytes _ hmem) (by decide), fun hmem => absurd (h.bytes _ hmem) (by decide)⟩

theorem IsHost.colon_not_mem (h : IsHost host) : (0x3A : UInt8) ∉ host :=
  fun hmem => absurd (h.bytes _ hmem) (by decide)

/-- A name with an ending is a plain name as well. -/
theorem IsPlainName.append_ending (h : IsPlainName name) (hending : ending ∈ [[], gitEnding]) :
    IsPlainName (name ++ ending) := by
  refine ⟨List.append_ne_nil_of_left_ne_nil h.ne_nil _, List.forall_mem_append.mpr ⟨h.bytes, ?_⟩⟩
  simp only [List.mem_cons, List.not_mem_nil, or_false] at hending
  rcases hending with rfl | rfl <;> exact List.all_eq_true.mp rfl

theorem IsTail.bytes (h : IsTail tail) : ∀ b ∈ tail, isPlainPathByte b = true := by
  cases h with
  | nil => exact List.forall_mem_nil _
  | pieces bytes =>
    refine List.forall_mem_cons.mpr ⟨rfl, fun b hb => ?_⟩
    rcases bytes b hb with h | rfl
    · exact isPlainPathByte_of_name h
    · rfl

/-! ## Web addresses -/

/-- Whatever stands behind the second piece of a path, the first two pieces are read. -/
theorem exists_split_trimSlashes {full : Bytes} (howner : IsPlainName owner)
    (hfull : IsPlainName full) (htail : IsTail tail) :
    ∃ more, split 0x2F (trimSlashes (0x2F :: (owner ++ 0x2F :: (full ++ tail)))) =
      owner :: full :: more := by
  have hfront : (0x2F :: (owner ++ 0x2F :: (full ++ tail))).dropWhile (· == 0x2F) =
      owner ++ 0x2F :: full ++ tail := by
    have hstop : (owner ++ 0x2F :: (full ++ tail)).head?.any (· == 0x2F) = false := by
      obtain ⟨b, rest, rfl⟩ := List.exists_cons_of_ne_nil howner.ne_nil
      have hslash := howner.not_mem.1
      simp only [List.mem_cons, not_or] at hslash
      simpa using Ne.symm hslash.1
    simpa using Read.dropWhile_append_stop (p := (· == 0x2F)) (w := [0x2F]) (by simp) hstop
  have hlast : (owner ++ 0x2F :: full).getLast?.any (· == 0x2F) = false := by
    obtain ⟨rest, b, rfl⟩ := List.eq_nil_or_concat' full |>.resolve_left hfull.ne_nil
    have hslash := hfull.not_mem.1
    simp only [List.mem_append, List.mem_singleton, not_or] at hslash
    rw [← List.cons_append, ← List.append_assoc, List.getLast?_concat]
    simpa using Ne.symm hslash.2
  rw [trimSlashes, hfront, dropWhileEnd_append hlast, List.append_assoc, List.cons_append,
    split_append_sep howner.not_mem.1]
  -- of what stands behind, a beginning is left: nothing, or a slash and more
  have hrest := dropWhileEnd_isPrefix (· == 0x2F) tail
  generalize dropWhileEnd (· == 0x2F) tail = rest at hrest
  cases rest with
  | nil => exact ⟨[], by rw [List.append_nil, split_of_not_mem hfull.not_mem.1]⟩
  | cons b rest =>
    obtain rfl : b = 0x2F := by
      cases htail with
      | nil => simp at hrest
      | pieces _ => exact (List.cons_prefix_cons.mp hrest).1
    exact ⟨split 0x2F rest, by rw [split_append_sep hfull.not_mem.1]⟩

theorem dropEnding_name (hbare : ¬ gitEnding <:+ name) (hending : ending ∈ [[], gitEnding]) :
    dropEnding gitEnding (name ++ ending) = name := by
  simp only [List.mem_cons, List.not_mem_nil, or_false] at hending
  rcases hending with rfl | rfl
  · rw [List.append_nil, dropEnding_of_not_suffix hbare]
  · exact dropEnding_append _ _

theorem parse_address {scheme : Bytes} (hscheme : scheme ∈ ["https", "http"].map ofString)
    (hhost : IsHost host) (howner : IsPlainName owner) (hname : IsPlainName name)
    (hbare : ¬ gitEnding <:+ name) (hending : ending ∈ [[], gitEnding]) (htail : IsTail tail)
    (htext : text = scheme ++ 0x3A :: 0x2F :: 0x2F ::
      (host ++ 0x2F :: (owner ++ 0x2F :: (name ++ ending ++ tail)))) :
    parse text = .ok ⟨host, owner, name, text⟩ := by
  have hfull := hname.append_ending hending
  have hword : scheme ≠ [] ∧ (∀ b ∈ scheme, isLetter b = true) ∧ scheme.map lowerByte = scheme ∧
      shortLead.isPrefixOf text = false ∧
      (scheme != ofString "https" && scheme != ofString "http") = false := by
    simp only [List.map_cons, List.map_nil, List.mem_cons, List.not_mem_nil, or_false] at hscheme
    subst htext
    rcases hscheme with rfl | rfl <;>
      exact ⟨by decide, List.all_eq_true.mp rfl, by decide, rfl, by decide⟩
  obtain ⟨hne, hletters, hlower, hshort, hknown⟩ := hword
  have hpath : ∀ b ∈ 0x2F :: (owner ++ 0x2F :: (name ++ ending ++ tail)),
      isPlainPathByte b = true := by
    rw [List.forall_mem_cons, List.forall_mem_append, List.forall_mem_cons, List.forall_mem_append]
    exact ⟨rfl, fun b hb => isPlainPathByte_of_name (howner.bytes b hb), rfl,
      fun b hb => isPlainPathByte_of_name (hfull.bytes b hb), htail.bytes⟩
  have hurl : Url.parse text =
      .ok ⟨scheme, host, 0x2F :: (owner ++ 0x2F :: (name ++ ending ++ tail))⟩ := by
    rw [htext, parse_plain hne hletters hhost.bytes hpath rfl, hlower]
  obtain ⟨more, hsplit⟩ := exists_split_trimSlashes howner hfull htail
  have hempty : host.isEmpty = false ∧ owner.isEmpty = false ∧ (name ++ ending).isEmpty = false :=
    ⟨by simpa using hhost.ne_nil, by simpa using howner.ne_nil, by simpa using hfull.ne_nil⟩
  rw [parse, hshort, ofUrl, hurl]
  simp only [hknown, hempty.1, hsplit, hempty.2.1, hempty.2.2, dropEnding_name hbare hending]
  rfl

/-! ## The short form -/

theorem parse_short (hhost : IsHost host) (howner : IsPlainName owner) (hname : IsPlainName name)
    (hbare : ¬ gitEnding <:+ name) (hending : ending ∈ [[], gitEnding])
    (htext : text = shortLead ++ (host ++ 0x3A :: (owner ++ 0x2F :: (name ++ ending)))) :
    parse text = .ok ⟨host, owner, name, text⟩ := by
  have hlead : shortLead.isPrefixOf text = true := by simp [htext]
  have hpath : (0x3A : UInt8) ∉ owner ++ 0x2F :: (name ++ ending) := by
    simp [howner.not_mem.2, (hname.append_ending hending).not_mem.2]
  have hcolon : split 0x3A (text.drop shortLead.length) =
      [host, owner ++ 0x2F :: (name ++ ending)] := by
    rw [htext, List.drop_left, split_append_sep hhost.colon_not_mem, split_of_not_mem hpath]
  -- the ending is taken off the whole path, and has no slash
  have hdrop : dropEnding gitEnding (owner ++ 0x2F :: (name ++ ending)) = owner ++ 0x2F :: name := by
    have hwhole : ¬ gitEnding <:+ owner ++ 0x2F :: name :=
      fun h => hbare (suffix_of_suffix_append (by decide) h)
    simpa using dropEnding_name hwhole hending
  have hslash : split 0x2F (owner ++ 0x2F :: name) = [owner, name] := by
    rw [split_append_sep howner.not_mem.1, split_of_not_mem hname.not_mem.1]
  have hempty : host.isEmpty = false ∧ owner.isEmpty = false ∧ name.isEmpty = false :=
    ⟨by simpa using hhost.ne_nil, by simpa using howner.ne_nil, by simpa using hname.ne_nil⟩
  rw [parse, if_pos hlead, ofShortForm, hcolon]
  simp only [hempty, hdrop, hslash]
  rfl

/-! ## All spellings -/

theorem parse_of_spelling (hhost : IsHost host) (howner : IsPlainName owner)
    (hname : IsPlainName name) (hbare : ¬ gitEnding <:+ name)
    (h : Spelling host owner name text) : parse text = .ok ⟨host, owner, name, text⟩ := by
  cases h with
  | address hscheme hending htail =>
    refine parse_address hscheme hhost howner hname hbare hending htail ?_
    rw [show ofString "://" = [0x3A, 0x2F, 0x2F] from rfl]
    simp
  | short hending =>
    refine parse_short hhost howner hname hbare hending ?_
    simp

/-- **Every spelling of a repository is read as the repository**: its host, owner and name, and so the
address from which it is cloned, which is a spelling itself and is read as the same again. -/
theorem parse_spelling (hhost : IsHost host) (howner : IsPlainName owner) (hname : IsPlainName name)
    (hbare : ¬ gitEnding <:+ name) (h : Spelling host owner name text) :
    ∃ r, parse text = .ok r ∧ r.host = host ∧ r.owner = owner ∧ r.name = name ∧
      r.cloneUrl = ofString "https://" ++ host ++ ofString "/" ++ owner ++ ofString "/" ++ name ++
        ofString ".git" ∧
      ∃ again, parse r.cloneUrl = .ok again ∧ again.host = host ∧ again.owner = owner ∧
        again.name = name ∧ again.cloneUrl = r.cloneUrl := by
  have hclone : Spelling host owner name (cloneUrl ⟨host, owner, name, text⟩) := by
    have haddress : Spelling host owner name (ofString "https" ++ ofString "://" ++ host ++ [0x2F] ++
        owner ++ [0x2F] ++ name ++ gitEnding ++ []) := .address (by simp) (by simp) .nil
    rw [List.append_nil] at haddress
    exact haddress
  exact ⟨_, parse_of_spelling hhost howner hname hbare h, rfl, rfl, rfl, rfl,
    _, parse_of_spelling hhost howner hname hbare hclone, rfl, rfl, rfl, rfl⟩

/-- The ending in the middle of a name belongs to the name, and the one behind it does not. -/
theorem parse_spelling_ending :
    IsHost (ofString "a-b.c") ∧ IsPlainName (ofString ".git") ∧ IsPlainName (ofString "x.git_y") ∧
      ¬ gitEnding <:+ ofString "x.git_y" ∧
      Spelling (ofString "a-b.c") (ofString ".git") (ofString "x.git_y")
        (ofString "http://a-b.c/.git/x.git_y.git//tree/") ∧
      ∃ r, parse (ofString "http://a-b.c/.git/x.git_y.git//tree/") = .ok r ∧
        r.cloneUrl = ofString "https://a-b.c/.git/x.git_y.git" := by
  have hhost : IsHost (ofString "a-b.c") := ⟨by decide, List.all_eq_true.mp rfl⟩
  have howner : IsPlainName (ofString ".git") := ⟨by decide, List.all_eq_true.mp rfl⟩
  have hname : IsPlainName (ofString "x.git_y") := ⟨by decide, List.all_eq_true.mp rfl⟩
  have hbare : ¬ gitEnding <:+ ofString "x.git_y" := by decide
  have htail : ∀ b ∈ ofString "/tree/", isPlainNameByte b = true ∨ b = 0x2F := by
    have hall : (ofString "/tree/").all (fun b => isPlainNameByte b || b == 0x2F) = true := rfl
    simpa using hall
  have hspelling : Spelling (ofString "a-b.c") (ofString ".git") (ofString "x.git_y")
      (ofString "http" ++ ofString "://" ++ ofString "a-b.c" ++ [0x2F] ++ ofString ".git" ++ [0x2F] ++
        ofString "x.git_y" ++ gitEnding ++ ofString "//tree/") :=
    .address (by decide) (by decide) (.pieces htail)
  obtain ⟨r, hread, -, -, -, hclone, -⟩ := parse_spelling hhost howner hname hbare hspelling
  exact ⟨hhost, howner, hname, hbare, hspelling, r, hread, hclone⟩

/-! ## What is accepted -/

/-- A part of a repository that can be asked for: it is there and has no slash. -/
structure IsPart (s : Bytes) : Prop where
  ne_nil : s ≠ []
  no_slash : 0x2F ∉ s

/-- A short form with a slash in front of the first colon. -/
structure HasDeepHost (text : Bytes) : Prop where
  short : shortLead <+: text
  slash : 0x2F ∈ (text.drop shortLead.length).takeWhile (· != 0x3A)

/-- A web address with the ending alone in the place of the name. -/
structure HasBareEnding (text : Bytes) : Prop where
  address : ¬ shortLead <+: text
  ending : ∃ url owner more, Url.parse text = .ok url ∧
    split 0x2F (trimSlashes url.path) = owner :: gitEnding :: more

theorem ofShortForm_eq_ok {rest : Bytes} (h : ofShortForm text rest = .ok r) :
    ∃ path, split 0x3A rest = [r.host, path] ∧
      split 0x2F (dropEnding gitEnding path) = [r.owner, r.name] ∧
      r.host ≠ [] ∧ r.owner ≠ [] ∧ r.name ≠ [] := by
  simp only [ofShortForm] at h
  split at h
  · rename_i host path hcolon
    split at h
    · cases h
    rename_i hhost
    split at h
    · rename_i owner name hslash
      split at h
      · cases h
      rename_i hparts
      obtain rfl := Except.ok.inj h
      simp only [Bool.or_eq_true, List.isEmpty_iff, not_or] at hhost hparts
      exact ⟨path, hcolon, hslash, hhost, hparts.1, hparts.2⟩
    · cases h
  · cases h

theorem ofUrl_eq_ok (h : ofUrl text = .ok r) :
    ∃ url name more, Url.parse text = .ok url ∧
      split 0x2F (trimSlashes url.path) = r.owner :: name :: more ∧
      r.host = url.host ∧ r.name = dropEnding gitEnding name ∧
      r.host ≠ [] ∧ r.owner ≠ [] ∧ name ≠ [] := by
  simp only [ofUrl] at h
  split at h
  · cases h
  · rename_i url hurl
    split at h
    · cases h
    split at h
    · cases h
    rename_i hhost
    split at h
    · rename_i owner name more hslash
      split at h
      · cases h
      rename_i hparts
      obtain rfl := Except.ok.inj h
      simp only [Bool.or_eq_true, List.isEmpty_iff, not_or] at hhost hparts
      exact ⟨url, name, more, hurl, hslash, rfl, rfl, hhost, hparts.1, hparts.2⟩
    · cases h

theorem slash_not_mem_of_split {s piece : Bytes} {pieces : List Bytes} (h : split 0x2F s = pieces)
    (hmem : piece ∈ pieces) : 0x2F ∉ piece := (mem_split (h ▸ hmem)).1

/-- What a short form that is accepted gives. -/
theorem parts_of_short (hshort : shortLead <+: text) (h : parse text = .ok r) :
    r.host ≠ [] ∧ IsPart r.owner ∧ IsPart r.name ∧
      (0x2F ∈ r.host ↔ HasDeepHost text) := by
  rw [parse, if_pos (List.isPrefixOf_iff_prefix.mpr hshort)] at h
  obtain ⟨path, hcolon, hslash, hhost, howner, hname⟩ := ofShortForm_eq_ok h
  have hfirst : r.host = (text.drop shortLead.length).takeWhile (· != 0x3A) := by
    obtain ⟨more, hmore⟩ := exists_split_cons 0x3A (text.drop shortLead.length)
    rw [hmore] at hcolon
    exact (List.cons.inj hcolon).1.symm
  refine ⟨hhost, ⟨howner, slash_not_mem_of_split hslash (by simp)⟩,
    ⟨hname, slash_not_mem_of_split hslash (by simp)⟩, ?_⟩
  rw [hfirst]
  exact ⟨fun hmem => ⟨hshort, hmem⟩, HasDeepHost.slash⟩

/-- What a web address that is accepted gives. -/
theorem parts_of_address (haddress : ¬ shortLead <+: text) (h : parse text = .ok r) :
    IsPart r.host ∧ IsPart r.owner ∧ 0x2F ∉ r.name ∧ (r.name = [] ↔ HasBareEnding text) := by
  rw [parse, if_neg (mt List.isPrefixOf_iff_prefix.mp haddress)] at h
  obtain ⟨url, name, more, hurl, hslash, hhost, hname, hhost', howner, hne⟩ := ofUrl_eq_ok h
  refine ⟨⟨hhost', hhost ▸ slash_not_mem_host hurl⟩,
    ⟨howner, slash_not_mem_of_split hslash (by simp)⟩, ?_, ?_⟩
  · rw [hname]
    exact fun hmem => slash_not_mem_of_split hslash (by simp) (dropEnding_subset _ _ hmem)
  · rw [hname, dropEnding_eq_nil_iff]
    constructor
    · intro hempty
      obtain rfl := hempty.resolve_left hne
      exact ⟨haddress, url, r.owner, more, hurl, hslash⟩
    · rintro ⟨-, url', owner', more', hurl', hslash'⟩
      obtain rfl := Except.ok.inj (hurl.symm.trans hurl')
      rw [hslash] at hslash'
      exact .inr (List.cons.inj (List.cons.inj hslash').2).1

/-- **What is accepted has a host and an owner, and a clone address made of its parts.** The host is
without a slash unless it came from a short form that has one in front of its colon, and the name is
there unless a web address has the ending alone in its place. -/
theorem parts_of_parse (h : parse text = .ok r) :
    r.host ≠ [] ∧ IsPart r.owner ∧ 0x2F ∉ r.name ∧
      r.cloneUrl = ofString "https://" ++ r.host ++ ofString "/" ++ r.owner ++ ofString "/" ++
        r.name ++ ofString ".git" ∧
      (IsPart r.host ↔ ¬ HasDeepHost text) ∧ (IsPart r.name ↔ ¬ HasBareEnding text) := by
  by_cases hshort : shortLead <+: text
  · obtain ⟨hhost, howner, hname, hdeep⟩ := parts_of_short hshort h
    refine ⟨hhost, howner, hname.no_slash, rfl, ?_, ?_⟩
    · rw [← hdeep]
      exact ⟨IsPart.no_slash, fun hslash => ⟨hhost, hslash⟩⟩
    · exact iff_of_true hname fun hbare => hbare.address hshort
  · obtain ⟨hhost, howner, hname, hbare⟩ := parts_of_address hshort h
    refine ⟨hhost.ne_nil, howner, hname, rfl, ?_, ?_⟩
    · exact iff_of_true hhost fun hdeep => hshort hdeep.short
    · rw [← hbare]
      exact ⟨IsPart.ne_nil, fun hne => ⟨hne, hname⟩⟩

theorem parse_bare_ending : parse (ofString "https://h/owner/.git") =
    .ok ⟨ofString "h", ofString "owner", [], ofString "https://h/owner/.git"⟩ := by
  rfl

theorem parse_deep_host : parse (ofString "git@h/x:owner/name") =
    .ok ⟨ofString "h/x", ofString "owner", ofString "name", ofString "git@h/x:owner/name"⟩ := by
  rfl

/-- A name that is the ending alone is the one thing that is missing. -/
theorem parts_of_parse_bare :
    parse (ofString "https://h/owner/.git") =
        .ok ⟨ofString "h", ofString "owner", [], ofString "https://h/owner/.git"⟩ ∧
      IsPart (ofString "h") ∧ HasBareEnding (ofString "https://h/owner/.git") := by
  obtain ⟨-, -, -, -, hhost, hname⟩ := parts_of_parse parse_bare_ending
  have hbare : HasBareEnding (ofString "https://h/owner/.git") :=
    of_not_not fun h => (hname.mpr h).ne_nil rfl
  exact ⟨parse_bare_ending, hhost.mpr fun hdeep => hbare.address hdeep.short, hbare⟩

/-- Not everything that is accepted is complete: a name can be missing, and a host can have a
slash. -/
theorem parse_incomplete :
    (∃ r, parse (ofString "https://h/owner/.git") = .ok r ∧ ¬ IsPart r.name) ∧
      ∃ r, parse (ofString "git@h/x:owner/name") = .ok r ∧ ¬ IsPart r.host :=
  ⟨⟨_, parse_bare_ending, fun h => h.ne_nil rfl⟩,
    ⟨_, parse_deep_host, fun h => h.no_slash (by decide)⟩⟩

end ClassOutline.RemoteRepository
