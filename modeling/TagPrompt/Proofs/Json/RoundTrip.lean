import TagPrompt.Json.Reader
import TagPrompt.Proofs.Text.Digits
import TagPrompt.Proofs.Text.Split
import TagPrompt.Proofs.Text.Utf8

/-! Documents there and back. A document that has texts for its strings and whole numbers for its
numbers is what is read from the text that it is written as. -/

namespace TagPrompt.JsonValue

variable {c : Char} {t rest : Text} {bound n : Nat} {value : JsonValue}
  {item : Text → Option (JsonValue × Text)}

/-! ### Strings -/

theorem number?_twoHexDigits (h : n < 0x20) :
    Text.number? 16 ('0' :: '0' :: twoHexDigits n) = some n := by
  have hall : ∀ n < 0x20, Text.number? 16 ('0' :: '0' :: twoHexDigits n) = some n := by decide
  exact hall n h

/-- Puts one more unit in front of what is read. -/
def withUnit (unit : Nat) (read : Option (List Nat × Text)) : Option (List Nat × Text) :=
  read.map fun (units, rest) => (unit :: units, rest)

theorem readUnits_simple {mark : Char} (h : simpleEscape? mark = some c) (t : Text) :
    readUnits ('\\' :: mark :: t) = withUnit c.toNat (readUnits t) := by
  have hmark : mark ≠ 'u' := by
    rintro rfl
    have hnone : simpleEscape? 'u' = none := by decide
    exact nomatch hnone.symm.trans h
  rw [readUnits, h]
  · cases readUnits t <;> rfl
  · exact fun _ _ _ _ _ hu _ => hmark hu

theorem readUnits_number {a b c d : Char} (h : Text.number? 16 [a, b, c, d] = some n) (t : Text) :
    readUnits ('\\' :: 'u' :: a :: b :: c :: d :: t) = withUnit n (readUnits t) := by
  rw [readUnits, h]
  cases readUnits t <;> rfl

theorem readUnits_plain (hquote : c ≠ '"') (hmark : c ≠ '\\') (h : ¬c.toNat < 0x20) (t : Text) :
    readUnits (c :: t) = withUnit c.toNat (readUnits t) := by
  rw [readUnits, if_neg (by simp [h, hmark])]
  · rfl
  · exact hquote
  · exact fun _ _ _ _ _ hc _ => hmark hc
  · exact fun _ _ hc _ => hmark hc

theorem readUnits_escapeChar (c : Char) (t : Text) :
    readUnits (escapeChar c ++ t) = withUnit c.toNat (readUnits t) := by
  rw [escapeChar]
  split_ifs with hquote hmark hback hfeed hline hreturn htab hcontrol
  · rw [hquote]
    exact readUnits_simple rfl t
  · rw [hmark]
    exact readUnits_simple rfl t
  · rw [hback]
    exact readUnits_simple rfl t
  · rw [hfeed]
    exact readUnits_simple rfl t
  · rw [hline]
    exact readUnits_simple rfl t
  · rw [hreturn]
    exact readUnits_simple rfl t
  · rw [htab]
    exact readUnits_simple rfl t
  · exact readUnits_number (number?_twoHexDigits hcontrol) t
  · exact readUnits_plain hquote hmark hcontrol t

theorem textOfUnits?_cons (c : Char) (units : List Nat) :
    textOfUnits? (c.toNat :: units) = (textOfUnits? units).map (c :: ·) := by
  -- no character is one half of a pair of surrogates
  have hvalid := Utf8.toNat_lt_or c
  rw [textOfUnits?.eq_def]
  dsimp only
  rw [if_neg (by omega), if_neg (by omega), Char.ofNat_toNat]

theorem textOfUnits?_map_toNat (t : Text) : textOfUnits? (t.map Char.toNat) = some t := by
  induction t with
  | nil => rfl
  | cons c t ih => rw [List.map_cons, textOfUnits?_cons, ih, Option.map_some]

theorem readUnits_escaped (t rest : Text) :
    readUnits (t.flatMap escapeChar ++ '"' :: rest) = some (t.map Char.toNat, rest) := by
  induction t with
  | nil => rw [List.flatMap_nil, List.nil_append, readUnits, List.map_nil]
  | cons c t ih =>
      rw [List.flatMap_cons, List.append_assoc, readUnits_escapeChar, ih]
      rfl

theorem readString_escaped (t rest : Text) :
    readString (t.flatMap escapeChar ++ '"' :: rest) = some (some t, rest) := by
  rw [readString, readUnits_escaped, Option.map_some]
  dsimp only
  rw [textOfUnits?_map_toNat]

/-! ### Numbers -/

/-- What stands behind a number and ends it. -/
def EndsNumber (rest : Text) : Prop :=
  ∀ c ∈ rest.head?, Text.isDigit c = false ∧ c ≠ '.' ∧ c ≠ 'e' ∧ c ≠ 'E'

theorem span_digits (h : EndsNumber rest) (n : Nat) :
    (Text.ofNat n ++ rest).span Text.isDigit = (Text.ofNat n, rest) := by
  have hdigits : ∀ c ∈ Text.ofNat n, Text.isDigit c = true := fun _ => Text.isDigit_of_mem_ofNat
  cases rest with
  | nil =>
      rw [List.append_nil, List.span_eq_takeWhile_dropWhile, List.takeWhile_eq_self_iff.mpr hdigits,
        List.dropWhile_eq_nil_iff.mpr hdigits]
  | cons c rest => exact Text.span_append hdigits (h c rfl).1 rest

theorem readWhole_ofNat (h : EndsNumber rest) (n : Nat) :
    readWhole (Text.ofNat n ++ rest) = some (Text.ofNat n, rest) := by
  obtain ⟨first, more, hdigits⟩ := List.exists_cons_of_ne_nil (Text.ofNat_ne_nil n)
  have hread : readDigits (Text.ofNat n ++ rest) = some (Text.ofNat n, rest) := by
    rw [readDigits, span_digits h, hdigits]
  rw [readWhole, hread]
  split
  · rename_i _ second behind _ hzero
    cases Text.eq_nil_of_ofNat_eq_zero_cons (congrArg Prod.fst (Option.some.inj hzero))
  · rfl

theorem readNumber_ofNat (h : EndsNumber rest) (n : Nat) :
    readNumber (Text.ofNat n ++ rest) = some (Text.ofNat n, rest) := by
  have hfraction : readFraction rest = some ([], rest) := by
    rw [readFraction.eq_def]
    split
    · exact absurd rfl (h _ rfl).2.1
    · rfl
  have hexponent : readExponent rest = some ([], rest) := by
    cases rest with
    | nil => rfl
    | cons c rest =>
        obtain ⟨-, -, hsmall, hlarge⟩ := h c rfl
        rw [readExponent.eq_def]
        exact if_neg (by simp [hsmall, hlarge])
  have hunsigned : readUnsigned (Text.ofNat n ++ rest) = some (Text.ofNat n, rest) := by
    simp [readUnsigned, readWhole_ofNat h, hfraction, hexponent]
  rw [readNumber.eq_def]
  split
  · rename_i tail hsign
    have hminus : '-' ∉ Text.ofNat n := Text.not_mem_ofNat (by decide) n
    obtain ⟨first, more, hdigits⟩ := List.exists_cons_of_ne_nil (Text.ofNat_ne_nil n)
    rw [hdigits, List.cons_append] at hsign
    obtain ⟨rfl, -⟩ := List.cons.inj hsign
    rw [hdigits] at hminus
    exact absurd List.mem_cons_self hminus
  · exact hunsigned

/-! ### Documents -/

/-- Documents in which every string has a text and every number is a whole one. -/
inductive Legible : JsonValue → Prop
  | null : Legible .null
  | bool (value : Bool) : Legible (.bool value)
  | number (n : Nat) : Legible (.number (Text.ofNat n))
  | string (t : Text) : Legible (.string (some t))
  | array {items : List JsonValue} (hitems : ∀ item ∈ items, Legible item) :
      Legible (.array items)
  | object {members : List (Option Text × JsonValue)} (hkeys : ∀ m ∈ members, m.1.isSome = true)
      (hvalues : ∀ m ∈ members, Legible m.2) : Legible (.object members)

theorem skipBlank_cons (h : ¬(c = ' ' || c = '\t' || c = '\n' || c = '\r') = true) (t : Text) :
    skipBlank (c :: t) = c :: t :=
  List.dropWhile_cons_of_neg h

theorem renderItems_eq (items : List JsonValue) : renderItems items = items.map render := by
  induction items with
  | nil => rw [renderItems, List.map_nil]
  | cons item items ih => rw [renderItems, ih, List.map_cons]

/-- The text of a member. -/
def renderMember (member : Option Text × JsonValue) : Text :=
  renderString (member.1.getD []) ++ ':' :: render member.2

theorem renderMembers_eq (members : List (Option Text × JsonValue)) :
    renderMembers members = members.map renderMember := by
  induction members with
  | nil => rw [renderMembers, List.map_nil]
  | cons member members ih => rw [renderMembers, ih, List.map_cons, renderMember]

/-- A reader reads a value back whatever ends it. -/
def Reads (item : Text → Option (JsonValue × Text)) (value : JsonValue) : Prop :=
  ∀ rest, EndsNumber rest → item (render value ++ rest) = some (value, rest)

theorem endsNumber_cons (h : c = ',' ∨ c = ']' ∨ c = '\x7d') (t : Text) : EndsNumber (c :: t) := by
  rintro _ ⟨⟩
  rcases h with rfl | rfl | rfl <;> decide

theorem readItems_render {items : List JsonValue} (hne : items ≠ [])
    (hreads : ∀ value ∈ items, Reads item value) (hbound : items.length ≤ bound) (rest : Text) :
    readItems item bound (Text.join [','] (items.map render) ++ ']' :: rest) =
      some (items, rest) := by
  induction items generalizing bound with
  | nil => exact absurd rfl hne
  | cons value items ih =>
      obtain _ | bound := bound
      · exact absurd hbound (Nat.not_succ_le_zero _)
      obtain ⟨hvalue, hitems⟩ := List.forall_mem_cons.mp hreads
      cases items with
      | nil =>
          have hclosing : skipBlank (']' :: rest) = ']' :: rest := skipBlank_cons (by decide) rest
          have hread := hvalue (']' :: rest) (endsNumber_cons (by decide) rest)
          simp only [readItems, List.map_cons, List.map_nil, Text.join, hread, Option.bind_eq_bind,
            Option.bind_some, hclosing]
          rfl
      | cons next items =>
          have hnext := ih (List.cons_ne_nil next items) hitems (Nat.le_of_succ_le_succ hbound)
          generalize hlater : Text.join [','] ((next :: items).map render) ++ ']' :: rest = later
            at hnext
          have hread := hvalue (',' :: later) (endsNumber_cons (by decide) later)
          have hcomma : skipBlank (',' :: later) = ',' :: later := skipBlank_cons (by decide) later
          have htext : Text.join [','] ((value :: next :: items).map render) ++ ']' :: rest =
              render value ++ ',' :: later := by
            rw [← hlater, List.map_cons, List.map_cons, Text.join_cons_cons, ← List.map_cons]
            simp
          rw [htext]
          simp only [readItems, hread, Option.bind_eq_bind, Option.bind_some, hcomma, hnext]
          rfl

theorem readKey_render (key rest : Text) :
    readKey (renderString key ++ ':' :: rest) = some (some key, rest) := by
  have hbody : renderString key ++ ':' :: rest =
      '"' :: (key.flatMap escapeChar ++ '"' :: ':' :: rest) := by
    simp [renderString]
  have hcolon : skipBlank (':' :: rest) = ':' :: rest := skipBlank_cons (by decide) rest
  rw [hbody, readKey, skipBlank_cons (by decide)]
  simp only [readString_escaped, Option.bind_eq_bind, Option.bind_some, hcolon]
  rfl

theorem readMembers_render {members : List (Option Text × JsonValue)} (hne : members ≠ [])
    (hkeys : ∀ m ∈ members, m.1.isSome = true) (hreads : ∀ m ∈ members, Reads item m.2)
    (hbound : members.length ≤ bound) (rest : Text) :
    readMembers item bound (Text.join [','] (members.map renderMember) ++ '\x7d' :: rest) =
      some (members, rest) := by
  induction members generalizing bound with
  | nil => exact absurd rfl hne
  | cons member members ih =>
      obtain _ | bound := bound
      · exact absurd hbound (Nat.not_succ_le_zero _)
      obtain ⟨hkey, hnextKeys⟩ := List.forall_mem_cons.mp hkeys
      obtain ⟨hvalue, hmembers⟩ := List.forall_mem_cons.mp hreads
      obtain ⟨_ | key, value⟩ := member
      · cases hkey
      cases members with
      | nil =>
          have hclosing : skipBlank ('\x7d' :: rest) = '\x7d' :: rest :=
            skipBlank_cons (by decide) rest
          have hread := hvalue ('\x7d' :: rest) (endsNumber_cons (by decide) rest)
          simp only [readMembers, List.map_cons, List.map_nil, Text.join, renderMember,
            Option.getD_some, List.append_assoc, List.cons_append, readKey_render, hread,
            Option.bind_eq_bind, Option.bind_some, hclosing]
          rfl
      | cons next members =>
          have hnext := ih (List.cons_ne_nil next members) hnextKeys hmembers
            (Nat.le_of_succ_le_succ hbound)
          generalize hlater : Text.join [','] ((next :: members).map renderMember) ++
            '\x7d' :: rest = later at hnext
          have hread := hvalue (',' :: later) (endsNumber_cons (by decide) later)
          have hcomma : skipBlank (',' :: later) = ',' :: later := skipBlank_cons (by decide) later
          have htext : Text.join [','] (((some key, value) :: next :: members).map renderMember) ++
              '\x7d' :: rest = renderString key ++ ':' :: (render value ++ ',' :: later) := by
            rw [← hlater, List.map_cons, List.map_cons, Text.join_cons_cons, ← List.map_cons]
            simp [renderMember]
          rw [htext]
          simp only [readMembers, readKey_render, hread, Option.bind_eq_bind, Option.bind_some,
            hcomma, hnext]
          rfl

theorem length_le_length_join {piece : Text} {pieces : List Text} (h : piece ∈ pieces) :
    piece.length ≤ (Text.join [','] pieces).length := by
  induction pieces with
  | nil => exact absurd h List.not_mem_nil
  | cons first pieces ih =>
      cases pieces with
      | nil =>
          obtain rfl := List.mem_singleton.mp h
          exact Nat.le_refl _
      | cons next pieces =>
          rw [Text.join_cons_cons, List.length_append, List.length_append]
          rcases List.mem_cons.mp h with rfl | h
          · omega
          · have hlater := ih h
            omega

theorem length_pieces_le {pieces : List Text} (h : ∀ piece ∈ pieces, piece ≠ []) :
    pieces.length ≤ (Text.join [','] pieces).length := by
  induction pieces with
  | nil => exact Nat.le_refl 0
  | cons first pieces ih =>
      obtain ⟨hfirst, hpieces⟩ := List.forall_mem_cons.mp h
      have hpos := List.length_pos_iff.mpr hfirst
      cases pieces with
      | nil => exact hpos
      | cons next pieces =>
          have hlater := ih hpieces
          rw [Text.join_cons_cons, List.length_append, List.length_append, List.length_cons]
          omega

/-- A document begins with a character that is not blank and closes nothing. -/
theorem Legible.exists_cons (h : Legible value) :
    ∃ c t, render value = c :: t ∧ ¬(c = ' ' || c = '\t' || c = '\n' || c = '\r') = true ∧
      c ≠ ']' := by
  cases h with
  | null => exact ⟨'n', _, rfl, by decide, by decide⟩
  | bool value =>
      cases value with
      | true => exact ⟨'t', _, rfl, by decide, by decide⟩
      | false => exact ⟨'f', _, rfl, by decide, by decide⟩
  | number n =>
      obtain ⟨c, t, hdigits⟩ := List.exists_cons_of_ne_nil (Text.ofNat_ne_nil n)
      have hc : Text.isDigit c = true := Text.isDigit_of_mem_ofNat (hdigits ▸ List.mem_cons_self)
      refine ⟨c, t, by rw [render, hdigits], ?_, ?_⟩
      · intro hblank
        simp only [Bool.or_eq_true, decide_eq_true_eq] at hblank
        rcases hblank with ((rfl | rfl) | rfl) | rfl <;> exact absurd hc (by decide)
      · rintro rfl
        exact absurd hc (by decide)
  | string t => exact ⟨'"', _, rfl, by decide, by decide⟩
  | array hitems => exact ⟨'[', _, rfl, by decide, by decide⟩
  | object hkeys hvalues => exact ⟨'\x7b', _, rfl, by decide, by decide⟩

theorem readValue_digit (h : Text.isDigit c = true) (t : Text) :
    readValue (bound + 1) (c :: t) =
      (readNumber (c :: t)).map fun (written, t) => (.number written, t) := by
  have hne : ∀ {d : Char}, Text.isDigit d = false → c ≠ d := by
    rintro d hd rfl
    exact absurd h (Bool.eq_false_iff.mp hd)
  have hblank : ¬(c = ' ' || c = '\t' || c = '\n' || c = '\r') = true := by
    simp [hne (d := ' ') rfl, hne (d := '\t') rfl, hne (d := '\n') rfl, hne (d := '\r') rfl]
  rw [readValue, skipBlank_cons hblank]
  split
  all_goals first
    | rfl
    | rename_i hmark
      exact absurd (List.cons.inj hmark).1 (hne rfl)

theorem readValue_string (t rest : Text) :
    readValue (bound + 1) (renderString t ++ rest) = some (.string (some t), rest) := by
  have hbody : renderString t ++ rest = '"' :: (t.flatMap escapeChar ++ '"' :: rest) := by
    simp [renderString]
  rw [hbody]
  change Option.map _ (readString (t.flatMap escapeChar ++ '"' :: rest)) = _
  rw [readString_escaped, Option.map_some]

theorem readValue_array (h : ¬(c = ' ' || c = '\t' || c = '\n' || c = '\r') = true) (hne : c ≠ ']')
    (t : Text) :
    readValue (bound + 1) ('[' :: c :: t) =
      (readItems (readValue bound) (c :: t).length (c :: t)).map
        fun (items, t) => (.array items, t) := by
  rw [readValue, skipBlank_cons (by decide)]
  simp only [skipBlank_cons h]
  split
  · rename_i hclosing
    exact absurd (List.cons.inj hclosing).1 hne
  · rfl

theorem readValue_object (t : Text) :
    readValue (bound + 1) ('\x7b' :: '"' :: t) =
      (readMembers (readValue bound) ('"' :: t).length ('"' :: t)).map
        fun (members, t) => (.object members, t) := by
  rfl

theorem Legible.exists_bound (h : Legible value) (hbound : (render value).length ≤ bound) :
    ∃ more, bound = more + 1 := by
  refine Nat.exists_eq_succ_of_ne_zero ?_
  rintro rfl
  obtain ⟨c, t, hcons, -⟩ := h.exists_cons
  rw [hcons] at hbound
  exact absurd hbound (Nat.not_succ_le_zero _)

theorem join_eq_cons {pieces : List Text} (h : Text.join [','] ((c :: t) :: pieces) = rest) :
    ∃ more, rest = c :: more := by
  subst h
  cases pieces with
  | nil => exact ⟨t, rfl⟩
  | cons next pieces => exact ⟨_, rfl⟩

theorem readValue_renderArray {items : List JsonValue} (hitems : ∀ item ∈ items, Legible item)
    (hreads : ∀ item ∈ items, Reads (readValue bound) item) (rest : Text) :
    readValue (bound + 1) (render (.array items) ++ rest) = some (.array items, rest) := by
  rw [render, renderItems_eq, List.cons_append, List.append_assoc, List.singleton_append]
  cases items with
  | nil => rfl
  | cons first items =>
      obtain ⟨c, t, hfirst, hblank, hne⟩ := (hitems first List.mem_cons_self).exists_cons
      obtain ⟨more, hmore⟩ : ∃ more, Text.join [','] ((first :: items).map render) = c :: more :=
        join_eq_cons (by rw [List.map_cons, hfirst])
      have hpieces : ∀ piece ∈ (first :: items).map render, piece ≠ [] := by
        intro piece hpiece
        obtain ⟨item, hitem, rfl⟩ := List.mem_map.mp hpiece
        obtain ⟨c, t, hcons, -⟩ := (hitems item hitem).exists_cons
        exact hcons ▸ List.cons_ne_nil c t
      have hcount := length_pieces_le hpieces
      rw [List.length_map] at hcount
      have hread := readItems_render (List.cons_ne_nil first items) hreads
        (hcount.trans (List.prefix_append _ (']' :: rest)).length_le) rest
      rw [hmore, List.cons_append] at hread ⊢
      rw [readValue_array hblank hne, hread]
      rfl

theorem readValue_renderObject {members : List (Option Text × JsonValue)}
    (hkeys : ∀ m ∈ members, m.1.isSome = true)
    (hreads : ∀ m ∈ members, Reads (readValue bound) m.2) (rest : Text) :
    readValue (bound + 1) (render (.object members) ++ rest) = some (.object members, rest) := by
  rw [render, renderMembers_eq, List.cons_append, List.append_assoc, List.singleton_append]
  cases members with
  | nil => rfl
  | cons first members =>
      obtain ⟨more, hmore⟩ : ∃ more,
          Text.join [','] ((first :: members).map renderMember) = '"' :: more :=
        join_eq_cons rfl
      have hpieces : ∀ piece ∈ (first :: members).map renderMember, piece ≠ [] := by
        intro piece hpiece
        obtain ⟨m, -, rfl⟩ := List.mem_map.mp hpiece
        exact List.cons_ne_nil _ _
      have hcount := length_pieces_le hpieces
      rw [List.length_map] at hcount
      have hread := readMembers_render (List.cons_ne_nil first members) hkeys hreads
        (hcount.trans (List.prefix_append _ ('\x7d' :: rest)).length_le) rest
      rw [hmore, List.cons_append] at hread ⊢
      rw [readValue_object, hread]
      rfl

/-- A document is read back within any bound that its text keeps. -/
theorem readValue_render (h : Legible value) (hbound : (render value).length ≤ bound) :
    Reads (readValue bound) value := by
  intro rest hrest
  obtain ⟨bound, rfl⟩ := h.exists_bound hbound
  induction h generalizing bound rest with
  | null =>
      rw [render, readValue]
      rfl
  | bool value =>
      cases value <;>
      · rw [render, readValue]
        rfl
  | number n =>
      obtain ⟨c, t, hdigits⟩ := List.exists_cons_of_ne_nil (Text.ofNat_ne_nil n)
      have hc : Text.isDigit c = true := Text.isDigit_of_mem_ofNat (hdigits ▸ List.mem_cons_self)
      have hread := readNumber_ofNat hrest n
      rw [hdigits, List.cons_append] at hread
      rw [render, hdigits, List.cons_append, readValue_digit hc, hread]
      rfl
  | string t => exact readValue_string t rest
  | @array items hitems ih =>
      rw [render, renderItems_eq, List.length_cons, List.length_append, List.length_singleton]
        at hbound
      refine readValue_renderArray hitems ?_ rest
      intro item hitem later hlater
      -- the brackets leave the items the bound that is one less
      have hlength := length_le_length_join (List.mem_map_of_mem (f := render) hitem)
      have hinside : (render item).length ≤ bound := by omega
      obtain ⟨bound, rfl⟩ := (hitems item hitem).exists_bound hinside
      exact ih item hitem later hlater bound hinside
  | @object members hkeys hvalues ih =>
      rw [render, renderMembers_eq, List.length_cons, List.length_append, List.length_singleton]
        at hbound
      refine readValue_renderObject hkeys ?_ rest
      intro m hm later hlater
      have hlength := length_le_length_join (List.mem_map_of_mem (f := renderMember) hm)
      rw [renderMember, List.length_append, List.length_cons] at hlength
      have hinside : (render m.2).length ≤ bound := by omega
      obtain ⟨bound, rfl⟩ := (hvalues m hm).exists_bound hinside
      exact ih m hm later hlater bound hinside

/-- What is written is read back. -/
theorem parse_render (h : Legible value) : parse (render value) = some value := by
  have hread := readValue_render h (Nat.le_succ (render value).length) [] nofun
  rw [List.append_nil] at hread
  rw [parse, hread]
  rfl

end TagPrompt.JsonValue
