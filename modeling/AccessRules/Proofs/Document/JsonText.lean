import AccessRules.Proofs.Document.JsonParts

/-!
# JSON texts read back

**Program** — `Json.render` writes a document, `Json.parse` reads one.

**Spec** — a document of texts, truth values, integers, lists and maps with texts for keys is read
back as it was written (`parse_render`).

**Crux** — one statement is carried along the tree: a value is read back in front of any text that
may follow a value (`ReadsBack`), the fuel being the length of its text.  Every document begins with
a character that is no blank and closes nothing, so the reader does not stop where an item follows.

  1. plain documents and readable styles;
  2. scalars, then the items of a list and the members of a map, each by induction on what is left;
  3. whole documents, by recursion on the tree.
-/

namespace AccessRules.Json

open Text

/-! ## Plain documents -/

/-- A scalar that JSON holds as it is. -/
def isPlainScalar : Scalar → Bool
  | .null | .bool _ | .int _ | .text _ => true
  | _ => false

/-- Keys that are texts, each of them once. -/
def hasPlainKeys (entries : List (Scalar × Value)) : Bool :=
  (entries.all fun e => e.1 matches .text _) &&
    decide (entries.Pairwise fun a b => a.1.same b.1 = false)

mutual

/-- A document that JSON holds as it is: without floating-point numbers, bytes, dates and moments,
its maps with texts for keys. -/
def isPlain : Value → Bool
  | .scalar s => isPlainScalar s
  | .list items => arePlain items
  | .map entries => hasPlainKeys entries && havePlainValues entries

/-- Documents that JSON holds as they are. -/
def arePlain : List Value → Bool
  | [] => true
  | v :: rest => isPlain v && arePlain rest

/-- Entries whose values JSON holds as they are. -/
def havePlainValues : List (Scalar × Value) → Bool
  | [] => true
  | (_, v) :: rest => isPlain v && havePlainValues rest

end

theorem arePlain_iff {items : List Value} :
    arePlain items = true ↔ ∀ v ∈ items, isPlain v = true := by
  induction items with
  | nil => simp [arePlain]
  | cons v items ih => simp [arePlain, ih]

/-- A style with a comma between items and a colon after keys, apart from blanks, that keeps the
entries of a map in their order. -/
structure Style.IsReadable (st : Style) : Prop where
  item : ∃ blanks, st.itemGap.toList = ',' :: blanks ∧ blanks.all Rest.isBlankChar = true
  key : ∃ blanks, st.keyGap.toList = ':' :: blanks ∧ blanks.all Rest.isBlankChar = true
  unsorted : st.sortedKeys = false

theorem Style.isReadable_spaced : Style.spaced.IsReadable :=
  ⟨⟨[' '], rfl, rfl⟩, ⟨[' '], rfl, rfl⟩, rfl⟩

theorem Style.isReadable_compact : Style.compact.IsReadable :=
  ⟨⟨[], rfl, rfl⟩, ⟨[], rfl, rfl⟩, rfl⟩

/-- A text that does not begin with a blank. -/
def NoBlank (cs : List Char) : Prop := ∀ c ∈ cs.head?, Rest.isBlankChar c = false

theorem noBlank_cons {c : Char} (h : Rest.isBlankChar c = false) (cs : List Char) :
    NoBlank (c :: cs) := by
  intro d hd
  obtain rfl : c = d := Option.some.inj hd
  exact h

theorem dropWhile_blanks {blanks cs : List Char} (hb : blanks.all Rest.isBlankChar = true)
    (hc : NoBlank cs) : (blanks ++ cs).dropWhile Rest.isBlankChar = cs := by
  induction blanks with
  | nil =>
    cases cs with
    | nil => rfl
    | cons c cs =>
      have hno := hc c rfl
      simp [hno]
  | cons b bs ih =>
    simp only [List.all_cons, Bool.and_eq_true] at hb
    rw [List.cons_append, List.dropWhile_cons_of_pos hb.1]
    exact ih hb.2

/-- Blanks are skipped, and nothing else. -/
theorem skipBlanks_append {r : Rest} {blanks cs : List Char} (h : r.chars = blanks ++ cs)
    (hb : blanks.all Rest.isBlankChar = true) (hc : NoBlank cs) :
    ∃ off, r.skipBlanks = ⟨off, cs⟩ := by
  refine ⟨r.offset + (r.chars.takeWhile Rest.isBlankChar).length, ?_⟩
  rw [Rest.skipBlanks, h, dropWhile_blanks hb hc]

/-- Where no blank stands nothing is skipped. -/
theorem skipBlanks_cons {c : Char} (h : Rest.isBlankChar c = false) (off : Nat) (rest : List Char) :
    (Rest.mk off (c :: rest)).skipBlanks = ⟨off, c :: rest⟩ := by
  simp [Rest.skipBlanks, h]

/-- A character a value begins with: no blank and no end of a list or a map. -/
def Begins (c : Char) : Prop := Rest.isBlankChar c = false ∧ c ≠ ']' ∧ c ≠ '}'

instance (c : Char) : Decidable (Begins c) :=
  inferInstanceAs (Decidable (Rest.isBlankChar c = false ∧ c ≠ ']' ∧ c ≠ '}'))

theorem string_head (a : Bool) (s : String) : ∃ cs, (string a s).toList = '"' :: cs :=
  ⟨s.toList.flatMap (stringChar a) ++ ['"'], by simp [string]⟩

/-- An integer begins with a minus or a digit. -/
theorem toString_head (n : Int) :
    ∃ c cs, (toString n).toList = c :: cs ∧ (c = '-' ∨ isDigit c = true) := by
  obtain ⟨d, ds, hds, hd⟩ := toDigits_head n.natAbs
  rw [toList_toString, hds]
  by_cases hneg : n < 0
  · rw [if_pos hneg]
    exact ⟨'-', d :: ds, rfl, .inl rfl⟩
  · rw [if_neg hneg]
    exact ⟨d, ds, rfl, .inr hd⟩

/-- A character that is neither a minus nor a digit is not the first of an integer. -/
theorem ne_of_begins_number {c d : Char} (h : c = '-' ∨ isDigit c = true) (hd : d ≠ '-')
    (hdigit : isDigit d = false) : c ≠ d := by
  rintro rfl
  rcases h with rfl | h
  · exact hd rfl
  · rw [h] at hdigit
    cases hdigit

theorem begins_of_number {c : Char} (h : c = '-' ∨ isDigit c = true) : Begins c := by
  refine ⟨?_, ne_of_begins_number h (by decide) (by decide),
    ne_of_begins_number h (by decide) (by decide)⟩
  rw [Bool.eq_false_iff]
  intro hb
  simp only [Rest.isBlankChar, Bool.or_eq_true, decide_eq_true_eq] at hb
  rcases hb with ((hb | hb) | hb) | hb <;>
    exact ne_of_begins_number h (by decide) (by decide) hb

theorem object_head (st : Style) (es : List (String × String)) :
    ∃ cs, (object st es).toList = '{' :: cs := by
  unfold object
  exact ⟨_, by rw [String.toList_append, String.toList_append]; rfl⟩

/-- Every plain document begins with a character of its own. -/
theorem render_head (st : Style) {v : Value} (h : isPlain v = true) :
    ∃ c cs, (render st v).toList = c :: cs ∧ Begins c := by
  cases v with
  | scalar s =>
    rw [render]
    cases s with
    | null => exact ⟨'n', "ull".toList, by rw [scalar]; rfl, (by decide)⟩
    | bool b =>
      cases b with
      | true => exact ⟨'t', "rue".toList, by rw [scalar]; rfl, (by decide)⟩
      | false => exact ⟨'f', "alse".toList, by rw [scalar]; rfl, (by decide)⟩
    | int n =>
      obtain ⟨c, cs, hcs, hc⟩ := toString_head n
      exact ⟨c, cs, hcs, begins_of_number hc⟩
    | text s =>
      obtain ⟨cs, hcs⟩ := string_head st.asciiOnly s
      exact ⟨'"', cs, hcs, (by decide)⟩
    | float x => cases h
    | bytes bs => cases h
    | date d => cases h
    | moment m => cases h
  | list items =>
    have htext : (render st (.list items)).toList =
        '[' :: ((st.itemGap.intercalate (renderItems st items)).toList ++ [']']) := by
      simp [render]
    exact ⟨'[', _, htext, (by decide)⟩
  | map entries =>
    obtain ⟨cs, hcs⟩ := object_head st (renderEntries st entries)
    exact ⟨'{', cs, by rw [render]; exact hcs, (by decide)⟩

/-! ### Values, items and members -/

/-- What begins otherwise than a string, a map and a list is a word or a number. -/
theorem readValue_other {fuel : Nat} {r : Rest} {c : Char} {cs : List Char} (h : r.chars = c :: cs)
    (hstring : c ≠ '"') (hmap : c ≠ '{') (hlist : c ≠ '[') :
    readValue (fuel + 1) r =
      match readWord? r with
      | some found => .ok found
      | none =>
        match readNumber? r with
        | some found => .ok found
        | none => .error ⟨.noValue, r.offset⟩ := by
  rw [readValue]
  split
  · next h' => exact absurd (List.cons.inj (h.symm.trans h')).1 hstring
  · next h' => exact absurd (List.cons.inj (h.symm.trans h')).1 hmap
  · next h' => exact absurd (List.cons.inj (h.symm.trans h')).1 hlist
  · rfl

/-- A value is read back from the text it is written as, whatever may follow it. -/
def ReadsBack (st : Style) (v : Value) : Prop :=
  ∀ (fuel : Nat) (r : Rest) (rest : List Char), EndsValue rest →
    r.chars = (render st v).toList ++ rest → (render st v).toList.length ≤ fuel →
    ∃ off, readValue fuel r = .ok (v, ⟨off, rest⟩)

theorem readsBack_scalar (st : Style) {s : Scalar} (h : isPlainScalar s = true) :
    ReadsBack st (.scalar s) := by
  intro fuel r rest hr hchars hfuel
  obtain ⟨c, cs, hcs, _⟩ := render_head st (v := .scalar s) h
  rw [hcs, List.length_cons] at hfuel
  obtain ⟨fuel, rfl⟩ : ∃ f, fuel = f + 1 := ⟨fuel - 1, by omega⟩
  rw [render] at hchars
  cases s with
  | null =>
    obtain ⟨off, hoff⟩ := readWord?_null hchars
    have hn : r.chars = 'n' :: ("ull".toList ++ rest) := by rw [hchars, scalar]; rfl
    refine ⟨off, ?_⟩
    rw [readValue_other hn (by decide) (by decide) (by decide), hoff]
  | bool b =>
    obtain ⟨off, hoff⟩ := readWord?_bool b hchars
    refine ⟨off, ?_⟩
    cases b with
    | true =>
      have ht : r.chars = 't' :: ("rue".toList ++ rest) := by rw [hchars, scalar]; rfl
      rw [readValue_other ht (by decide) (by decide) (by decide), hoff]
    | false =>
      have hf : r.chars = 'f' :: ("alse".toList ++ rest) := by rw [hchars, scalar]; rfl
      rw [readValue_other hf (by decide) (by decide) (by decide), hoff]
  | int n =>
    obtain ⟨c, cs, hcs, hc⟩ := toString_head n
    obtain ⟨off, hoff⟩ := readNumber?_toString n hr hchars
    have hword := readWord?_toString n hchars
    rw [scalar, hcs] at hchars
    refine ⟨off, ?_⟩
    rw [readValue_other hchars (ne_of_begins_number hc (by decide) (by decide))
      (ne_of_begins_number hc (by decide) (by decide))
      (ne_of_begins_number hc (by decide) (by decide)), hword, hoff]
  | text s =>
    obtain ⟨off, hoff⟩ := readString_string st.asciiOnly s hchars
    obtain ⟨cs, hcs⟩ := string_head st.asciiOnly s
    refine ⟨off, ?_⟩
    have hquote : r.chars = '"' :: (cs ++ rest) := by
      rw [← List.cons_append, ← hcs]
      exact hchars
    rw [readValue, hquote]
    simp only [hoff, bind, Except.bind]
  | float x => cases h
  | bytes bs => cases h
  | date d => cases h
  | moment m => cases h

/-- Texts with a gap between them. -/
def joined (gap : String) (parts : List String) : List Char := (gap.intercalate parts).toList

theorem joined_singleton (gap s : String) : joined gap [s] = s.toList := by
  simp [joined]

theorem joined_cons_cons (gap s t : String) (parts : List String) :
    joined gap (s :: t :: parts) = s.toList ++ (gap.toList ++ joined gap (t :: parts)) := by
  simp [joined, String.toList_intercalate]

/-- What is joined begins as its first part does. -/
theorem joined_head (gap : String) {s : String} {c : Char} {cs : List Char} (parts : List String)
    (h : s.toList = c :: cs) : ∃ cs', joined gap (s :: parts) = c :: cs' := by
  cases parts with
  | nil => exact ⟨cs, by rw [joined_singleton, h]⟩
  | cons t parts => exact ⟨_, by rw [joined_cons_cons, h, List.cons_append]⟩

theorem EndsValue.of_cons {c : Char} (h : c = ',' ∨ c = ']' ∨ c = '}') (rest : List Char) :
    EndsValue (c :: rest) := by
  intro d hd
  obtain rfl : c = d := Option.some.inj hd
  exact h

/-- The items of a list are read back, behind those that were read before. -/
theorem readItems_renderItems {st : Style} (hst : st.IsReadable) (items : List Value) :
    ∀ (v : Value), (∀ w ∈ v :: items, isPlain w = true ∧ ReadsBack st w) →
      ∀ (fuel : Nat) (done : List Value) (r : Rest) (rest : List Char),
        r.chars = joined st.itemGap (renderItems st (v :: items)) ++ ']' :: rest →
        (joined st.itemGap (renderItems st (v :: items))).length < fuel →
        ∃ off, readItems fuel done r = .ok (.list (done.reverse ++ v :: items), ⟨off, rest⟩) := by
  induction items with
  | nil =>
    intro v hall fuel done r rest hchars hfuel
    rw [renderItems, renderItems, joined_singleton] at hchars hfuel
    obtain ⟨fuel, rfl⟩ : ∃ f, fuel = f + 1 := ⟨fuel - 1, by omega⟩
    obtain ⟨off, hoff⟩ := (hall v (List.mem_cons_self ..)).2 fuel r _
      (.of_cons (.inr (.inl rfl)) rest) hchars (by omega)
    refine ⟨off + 1, ?_⟩
    rw [readItems, hoff]
    simp only [bind, Except.bind, skipBlanks_cons (c := ']') (by decide), List.reverse_cons]
    rfl
  | cons w items ih =>
    intro v hall fuel done r rest hchars hfuel
    rw [renderItems, renderItems, joined_cons_cons] at hchars hfuel
    rw [← renderItems] at hchars hfuel
    obtain ⟨fuel, rfl⟩ : ∃ f, fuel = f + 1 := ⟨fuel - 1, by omega⟩
    obtain ⟨blanks, hgap, hblanks⟩ := hst.item
    obtain ⟨c, cs, hcs, hc⟩ := render_head st (hall w (by simp)).1
    obtain ⟨cs', hcs'⟩ := joined_head st.itemGap (renderItems st items) hcs
    rw [hgap, List.append_assoc, List.cons_append, List.cons_append, List.append_assoc] at hchars
    simp only [hgap, List.length_append, List.length_cons] at hfuel
    obtain ⟨off, hoff⟩ := (hall v (List.mem_cons_self ..)).2 fuel r _
      (.of_cons (.inl rfl) _) hchars (by omega)
    -- behind the comma come blanks and then the next item
    have hnext : NoBlank (joined st.itemGap (renderItems st (w :: items)) ++ ']' :: rest) := by
      rw [renderItems, hcs', List.cons_append]
      exact noBlank_cons hc.1 _
    obtain ⟨off', hskip⟩ := skipBlanks_append (r := ⟨off + 1, _⟩) rfl hblanks hnext
    obtain ⟨off'', hrest⟩ := ih w (fun x hx => hall x (List.mem_cons_of_mem _ hx)) fuel (v :: done)
      ⟨off', _⟩ rest rfl (by omega)
    refine ⟨off'', ?_⟩
    rw [readItems, hoff]
    simp only [bind, Except.bind, skipBlanks_cons (c := ',') (by decide)]
    rw [Rest.advance, List.drop_one, List.tail_cons, hskip, hrest, List.reverse_cons,
      List.append_assoc]
    rfl

/-- Two keys that are not the same by value. -/
def KeysDiffer (a b : Scalar × Value) : Prop := a.1.same b.1 = false

/-- A new key comes last. -/
theorem put_append {done : List (Scalar × Value)} {k : Scalar} (v : Value)
    (h : ∀ e ∈ done, e.1.same k = false) : Value.put k v done = done ++ [(k, v)] := by
  induction done with
  | nil => rfl
  | cons e done ih =>
    obtain ⟨k', w⟩ := e
    have hk : k'.same k = false := h (k', w) (List.mem_cons_self ..)
    rw [Value.put, hk, ih fun e he => h e (List.mem_cons_of_mem _ he)]
    rfl

/-- A member as it is written. -/
def member (st : Style) (k : String) (v : Value) : String :=
  string st.asciiOnly k ++ st.keyGap ++ render st v

/-- The members of a map as they are written. -/
def members (st : Style) : List (Scalar × Value) → List String
  | [] => []
  | e :: es => member st (keyText e.1) e.2 :: members st es

/-- What is read behind a member: the end of the map, or a comma and the next member. -/
def readBehindMember (fuel : Nat) (done : List (Scalar × Value)) (r : Rest) :
    Except FaultAt (Value × Rest) :=
  match r.chars with
  | '}' :: _ => .ok (.map done, r.advance 1)
  | ',' :: _ => readMembers fuel done (r.advance 1).skipBlanks
  | _ => .error ⟨.noComma, r.offset⟩

theorem readBehindMember_end (fuel : Nat) (done : List (Scalar × Value)) (off : Nat)
    (cs : List Char) :
    readBehindMember fuel done ⟨off, '}' :: cs⟩ = .ok (.map done, ⟨off + 1, cs⟩) := rfl

theorem readBehindMember_comma (fuel : Nat) (done : List (Scalar × Value)) (off : Nat)
    (cs : List Char) : readBehindMember fuel done ⟨off, ',' :: cs⟩ =
      readMembers fuel done (Rest.mk (off + 1) cs).skipBlanks := rfl

/-- The key and the value of a member are read back. -/
theorem readMembers_member {st : Style} (hst : st.IsReadable) {k : String} {v : Value}
    (hv : isPlain v = true) (hback : ReadsBack st v) (fuel : Nat) (done : List (Scalar × Value))
    {r : Rest} {rest : List Char} (hends : EndsValue rest)
    (hchars : r.chars = (member st k v).toList ++ rest)
    (hfuel : (member st k v).toList.length ≤ fuel + 1)
    (hnew : ∀ e ∈ done, e.1.same (.text k) = false) :
    ∃ off, readMembers (fuel + 1) done r =
      readBehindMember fuel (done ++ [(.text k, v)]) (Rest.mk off rest).skipBlanks := by
  obtain ⟨blanks, hgap, hblanks⟩ := hst.key
  obtain ⟨cs, hcs⟩ := string_head st.asciiOnly k
  obtain ⟨c, cs', hcs', hc⟩ := render_head st hv
  simp only [member, String.toList_append, hgap, List.append_assoc, List.cons_append]
    at hchars hfuel
  have hquote : r.chars = '"' :: (cs ++ ':' :: (blanks ++ ((render st v).toList ++ rest))) := by
    rw [hchars, hcs, List.cons_append]
  obtain ⟨off, hkey⟩ := readString_string st.asciiOnly k hchars
  have hnext : NoBlank ((render st v).toList ++ rest) := by
    rw [hcs', List.cons_append]
    exact noBlank_cons hc.1 _
  obtain ⟨off', hskip⟩ := skipBlanks_append (r := ⟨off + 1, _⟩) rfl hblanks hnext
  have hlen : (render st v).toList.length ≤ fuel := by
    simp only [List.length_append, List.length_cons] at hfuel
    omega
  obtain ⟨off'', hvalue⟩ := hback fuel ⟨off', _⟩ rest hends rfl hlen
  refine ⟨off'', ?_⟩
  rw [readMembers, hquote]
  simp only [hkey, bind, Except.bind, skipBlanks_cons (c := ':') (by decide)]
  rw [Rest.advance, List.drop_one, List.tail_cons, hskip, hvalue, ← put_append v hnew]
  rfl

/-- The members of a map are read back, behind those that were read before. -/
theorem readMembers_members {st : Style} (hst : st.IsReadable) (es : List (Scalar × Value)) :
    ∀ (e : Scalar × Value), (∀ f ∈ e :: es, isPlain f.2 = true ∧ ReadsBack st f.2) →
      (∀ f ∈ e :: es, ∃ s, f.1 = .text s) →
      ∀ (fuel : Nat) (done : List (Scalar × Value)) (r : Rest) (rest : List Char),
        (done ++ e :: es).Pairwise KeysDiffer →
        r.chars = joined st.itemGap (members st (e :: es)) ++ '}' :: rest →
        (joined st.itemGap (members st (e :: es))).length < fuel →
        ∃ off, readMembers fuel done r = .ok (.map (done ++ e :: es), ⟨off, rest⟩) := by
  induction es with
  | nil =>
    intro e hall htext fuel done r rest hkeys hchars hfuel
    obtain ⟨k, v⟩ := e
    obtain ⟨s, hs⟩ := htext (k, v) (List.mem_cons_self ..)
    obtain rfl : k = .text s := hs
    obtain ⟨hv, hback⟩ := hall _ (List.mem_cons_self ..)
    rw [members, members, joined_singleton] at hchars hfuel
    simp only [keyText] at hchars hfuel
    obtain ⟨fuel, rfl⟩ : ∃ f, fuel = f + 1 := ⟨fuel - 1, by omega⟩
    have hnew : ∀ e ∈ done, e.1.same (.text s) = false := fun e he =>
      (List.pairwise_append.mp hkeys).2.2 e he _ (List.mem_cons_self ..)
    obtain ⟨off, hoff⟩ := readMembers_member (k := s) (v := v) hst hv hback fuel done
      (.of_cons (.inr (.inr rfl)) rest) hchars (by omega) hnew
    refine ⟨off + 1, ?_⟩
    rw [hoff, skipBlanks_cons (c := '}') (by decide), readBehindMember_end]
  | cons f es ih =>
    intro e hall htext fuel done r rest hkeys hchars hfuel
    obtain ⟨k, v⟩ := e
    obtain ⟨s, hs⟩ := htext (k, v) (List.mem_cons_self ..)
    obtain rfl : k = .text s := hs
    obtain ⟨hv, hback⟩ := hall _ (List.mem_cons_self ..)
    obtain ⟨blanks, hgap, hblanks⟩ := hst.item
    rw [members, members, joined_cons_cons] at hchars hfuel
    rw [← members] at hchars hfuel
    simp only [keyText] at hchars hfuel
    obtain ⟨fuel, rfl⟩ : ∃ f, fuel = f + 1 := ⟨fuel - 1, by omega⟩
    rw [hgap, List.append_assoc, List.cons_append, List.cons_append, List.append_assoc] at hchars
    simp only [hgap, List.length_append, List.length_cons] at hfuel
    have hnew : ∀ e ∈ done, e.1.same (.text s) = false := fun e he =>
      (List.pairwise_append.mp hkeys).2.2 e he _ (List.mem_cons_self ..)
    obtain ⟨off, hoff⟩ := readMembers_member (k := s) (v := v) hst hv hback fuel done
      (.of_cons (.inl rfl) _) hchars (by omega) hnew
    -- behind the comma come blanks and then the quote of the next key
    have hnext : NoBlank (joined st.itemGap (members st (f :: es)) ++ '}' :: rest) := by
      obtain ⟨cs, hcs⟩ := string_head st.asciiOnly (keyText f.1)
      obtain ⟨cs', hcs'⟩ := joined_head st.itemGap (s := member st (keyText f.1) f.2)
        (members st es) (by rw [member, String.toList_append, String.toList_append, hcs]; rfl)
      rw [members, hcs']
      exact noBlank_cons (by decide) _
    obtain ⟨off', hskip⟩ := skipBlanks_append (r := ⟨off + 1, _⟩) rfl hblanks hnext
    obtain ⟨off'', hrest⟩ := ih f (fun x hx => hall x (List.mem_cons_of_mem _ hx))
      (fun x hx => htext x (List.mem_cons_of_mem _ hx)) fuel (done ++ [(.text s, v)]) ⟨off', _⟩ rest
      (by rw [List.append_assoc]; exact hkeys) rfl (by omega)
    refine ⟨off'', ?_⟩
    rw [hoff, skipBlanks_cons (c := ',') (by decide), readBehindMember_comma, hskip, hrest,
      List.append_assoc]
    rfl

/-! ### Whole documents -/

theorem readsBack_list {st : Style} (hst : st.IsReadable) {items : List Value}
    (h : ∀ v ∈ items, isPlain v = true ∧ ReadsBack st v) : ReadsBack st (.list items) := by
  intro fuel r rest _ hchars hfuel
  have htext : (render st (.list items)).toList =
      '[' :: (joined st.itemGap (renderItems st items) ++ [']']) := by
    simp [render, joined]
  rw [htext] at hchars hfuel
  simp only [List.cons_append, List.append_assoc, List.nil_append, List.length_cons,
    List.length_append, List.length_nil] at hchars hfuel
  obtain ⟨fuel, rfl⟩ : ∃ f, fuel = f + 1 := ⟨fuel - 1, by omega⟩
  rw [readValue, hchars]
  simp only [Rest.advance, hchars, List.drop_one, List.tail_cons]
  cases items with
  | nil =>
    refine ⟨r.offset + 1 + 1, ?_⟩
    rw [renderItems, joined, String.intercalate_nil, String.toList_empty, List.nil_append,
      skipBlanks_cons (by decide)]
    rfl
  | cons v items =>
    obtain ⟨c, cs, hcs, hc⟩ := render_head st (h v (List.mem_cons_self ..)).1
    obtain ⟨cs', hcs'⟩ := joined_head st.itemGap (renderItems st items) hcs
    have hhead : joined st.itemGap (renderItems st (v :: items)) = c :: cs' := by
      rw [renderItems, hcs']
    obtain ⟨off, hoff⟩ := readItems_renderItems hst items v h fuel [] ⟨r.offset + 1, _⟩ rest rfl
      (by omega)
    refine ⟨off, ?_⟩
    rw [hhead, List.cons_append] at hoff ⊢
    rw [skipBlanks_cons hc.1]
    split
    · next heq => exact absurd (List.cons.inj heq).1 hc.2.1
    · exact hoff

theorem renderEntries_members (st : Style) (es : List (Scalar × Value)) :
    (renderEntries st es).map (fun e => string st.asciiOnly e.1 ++ st.keyGap ++ e.2) =
      members st es := by
  induction es with
  | nil => rfl
  | cons e es ih => rw [renderEntries, List.map_cons, ih]; rfl

theorem readsBack_map {st : Style} (hst : st.IsReadable) {es : List (Scalar × Value)}
    (h : ∀ e ∈ es, isPlain e.2 = true ∧ ReadsBack st e.2) (htext : ∀ e ∈ es, ∃ s, e.1 = .text s)
    (hkeys : es.Pairwise KeysDiffer) : ReadsBack st (.map es) := by
  intro fuel r rest _ hchars hfuel
  have hrender : (render st (.map es)).toList =
      '{' :: (joined st.itemGap (members st es) ++ ['}']) := by
    have hmap := renderEntries_members st es
    simp only [render, object, hst.unsorted, Bool.false_eq_true, if_false, joined,
      String.toList_append]
    rw [← hmap]
    rfl
  rw [hrender] at hchars hfuel
  simp only [List.cons_append, List.append_assoc, List.nil_append, List.length_cons,
    List.length_append, List.length_nil] at hchars hfuel
  obtain ⟨fuel, rfl⟩ : ∃ f, fuel = f + 1 := ⟨fuel - 1, by omega⟩
  rw [readValue, hchars]
  simp only [Rest.advance, hchars, List.drop_one, List.tail_cons]
  cases es with
  | nil =>
    refine ⟨r.offset + 1 + 1, ?_⟩
    rw [members, joined, String.intercalate_nil, String.toList_empty, List.nil_append,
      skipBlanks_cons (by decide)]
    rfl
  | cons e es =>
    obtain ⟨cs, hcs⟩ := string_head st.asciiOnly (keyText e.1)
    obtain ⟨cs', hcs'⟩ := joined_head st.itemGap (s := member st (keyText e.1) e.2)
      (members st es) (by rw [member, String.toList_append, String.toList_append, hcs]; rfl)
    have hhead : joined st.itemGap (members st (e :: es)) = '"' :: cs' := by
      rw [members, hcs']
    obtain ⟨off, hoff⟩ := readMembers_members hst es e h htext fuel [] ⟨r.offset + 1, _⟩ rest
      hkeys rfl (by omega)
    refine ⟨off, ?_⟩
    rw [hhead, List.cons_append] at hoff ⊢
    rw [skipBlanks_cons (by decide)]
    exact hoff

theorem text_of_hasPlainKeys {es : List (Scalar × Value)} (h : hasPlainKeys es = true) :
    (∀ e ∈ es, ∃ s, e.1 = .text s) ∧ es.Pairwise KeysDiffer := by
  simp only [hasPlainKeys, Bool.and_eq_true, List.all_eq_true, decide_eq_true_eq] at h
  refine ⟨?_, h.2⟩
  intro e he
  have htext := h.1 e he
  split at htext
  · next s heq => exact ⟨s, heq⟩
  · cases htext

mutual

/-- **Plain documents are read back.** -/
theorem readsBack {st : Style} (hst : st.IsReadable) :
    ∀ v : Value, isPlain v = true → ReadsBack st v
  | .scalar _, h => readsBack_scalar st (by rw [isPlain] at h; exact h)
  | .list items, h => readsBack_list hst (readsBack_items hst items (by rw [isPlain] at h; exact h))
  | .map es, h => by
    rw [isPlain, Bool.and_eq_true] at h
    obtain ⟨htext, hkeys⟩ := text_of_hasPlainKeys h.1
    exact readsBack_map hst (readsBack_values hst es h.2) htext hkeys

theorem readsBack_items {st : Style} (hst : st.IsReadable) :
    ∀ items : List Value, arePlain items = true →
      ∀ v ∈ items, isPlain v = true ∧ ReadsBack st v
  | [], _ => by simp
  | v :: items, h => by
    rw [arePlain, Bool.and_eq_true] at h
    have hv := readsBack hst v h.1
    intro w hw
    rcases List.mem_cons.mp hw with rfl | hw
    · exact ⟨h.1, hv⟩
    · exact readsBack_items hst items h.2 w hw

theorem readsBack_values {st : Style} (hst : st.IsReadable) :
    ∀ es : List (Scalar × Value), havePlainValues es = true →
      ∀ e ∈ es, isPlain e.2 = true ∧ ReadsBack st e.2
  | [], _ => by simp
  | (k, v) :: es, h => by
    rw [havePlainValues, Bool.and_eq_true] at h
    have hv := readsBack hst v h.1
    intro e he
    rcases List.mem_cons.mp he with rfl | he
    · exact ⟨h.1, hv⟩
    · exact readsBack_values hst es h.2 e he

end

/-- **A plain document is read back from its text.** -/
theorem parse_render {st : Style} (hst : st.IsReadable) {v : Value} (h : isPlain v = true) :
    parse (render st v).toList = .ok v := by
  obtain ⟨c, cs, hcs, hc⟩ := render_head st h
  have hskip : (Rest.mk 0 (render st v).toList).skipBlanks = ⟨0, (render st v).toList⟩ := by
    rw [hcs]
    exact skipBlanks_cons hc.1 0 cs
  have hends : EndsValue [] := by
    intro c hc
    cases hc
  obtain ⟨off, hoff⟩ := readsBack hst v h (2 * (render st v).toList.length + 2)
    ⟨0, (render st v).toList⟩ [] hends (List.append_nil _).symm (by omega)
  rw [parse, hskip, hoff]
  rfl

end AccessRules.Json
