import EntityFilter.Document.Printer
import EntityFilter.Proofs.MemberOrder
import EntityFilter.Proofs.WrittenNumbers

/-!
# Printed documents are read in one way only

Two documents with the same text are the same: the same items and members in the same order, the
same texts, and the same numbers (`Document.eq_of_print_eq`).  Only their doubles have to be finite,
as the doubles of written documents are.

A text is read from left to right.  The first character tells the kind of the document
(`Document.kindOf?_chars`), what stands between quotes is read back by the scanner of texts
(`Document.Token.scanText_flatMap`), and a number is read back as its numeral.  Items and members
end at a comma or at the bracket, which no document starts with and no number contains.  So the
induction is over one document with something behind it (`Document.chars_append_inj`).
-/

namespace EntityFilter

namespace Document

/-! ## Texts between quotes -/

namespace Token

variable {c : Char} {cs rest : List Char}

lemma hexNumber?_control : ∀ n < 32, Text.hexNumber?
    ['0', '0', Text.hexDigit (n / 16), Text.hexDigit (n % 16)] = some n := by
  decide

lemma scanText_escape (c : Char) (rest : List Char) :
    scanText (escape c ++ rest) = (scanText rest).map fun (cs, after) => (c :: cs, after) := by
  unfold escape
  split_ifs with h h h h h h h hcontrol
  -- the characters that have a letter of their own
  iterate 7
    · subst h
      simp [scanText, escaped?]
  · rw [List.cons_append, List.cons_append, List.cons_append, List.cons_append, List.cons_append,
      List.cons_append, List.nil_append, scanText, hexNumber?_control _ hcontrol]
    dsimp only
    rw [if_neg (by omega), if_neg (by omega), Char.ofNat_toNat]
  · rw [List.cons_append, List.nil_append, scanText]
    all_goals simp_all

/-- **A text is read back** from between its quotes. -/
lemma scanText_flatMap (cs rest : List Char) :
    scanText (cs.flatMap escape ++ '"' :: rest) = some (cs, rest) := by
  induction cs with
  | nil => rfl
  | cons c cs ih =>
    rw [List.flatMap_cons, List.append_assoc, scanText_escape, ih]
    rfl

end Token

/-! ## The characters of a document -/

/-- The characters of the printed document. -/
def chars (d : Document) : List Char := d.print.toList

/-- The characters of a member. -/
def memberChars (m : String × Document) : List Char := (quote m.1).toList ++ ':' :: m.2.chars

/-- Texts with commas between them. -/
def commaSeparated {α : Type} (write : α → List Char) : List α → List Char
  | [] => []
  | a :: as => write a ++ as.flatMap fun b => ',' :: write b

lemma intercalate_comma {α : Type} (write : α → List Char) (as : List α) :
    [','].intercalate (as.map write) = commaSeparated write as := by
  induction as with
  | nil => rfl
  | cons a as ih =>
    cases as with
    | nil => simp [commaSeparated]
    | cons b bs =>
      rw [List.map_cons, List.map_cons, List.intercalate_cons_cons, ← List.map_cons, ih,
        commaSeparated, commaSeparated, List.flatMap_cons, List.append_assoc]
      rfl

lemma printItems_eq_map (items : List Document) : printItems items = items.map print := by
  induction items with
  | nil => rfl
  | cons d ds ih => rw [printItems, ih, List.map_cons]

lemma printMembers_eq_map (ms : List (String × Document)) :
    printMembers ms = ms.map fun m => quote m.1 ++ ":" ++ m.2.print := by
  induction ms with
  | nil => rfl
  | cons m ms ih =>
    obtain ⟨key, d⟩ := m
    rw [printMembers, ih, List.map_cons]

lemma toList_quote (s : String) : (quote s).toList = '"' :: (s.toList.flatMap escape ++ ['"']) :=
  String.toList_ofList

lemma chars_array (items : List Document) :
    (array items).chars = '[' :: (commaSeparated chars items ++ [']']) := by
  rw [chars, print, printItems_eq_map, String.toList_append, String.toList_append,
    String.toList_intercalate, List.map_map]
  exact congrArg ('[' :: · ++ [']']) (intercalate_comma chars items)

lemma chars_object (ms : List (String × Document)) :
    (object ms).chars = '\x7b' :: (commaSeparated memberChars ms ++ ['\x7d']) := by
  have hmember : String.toList ∘ (fun m : String × Document => quote m.1 ++ ":" ++ m.2.print) =
      memberChars := by
    funext m
    rw [Function.comp_apply, String.toList_append, String.toList_append, List.append_assoc]
    rfl
  rw [chars, print, printMembers_eq_map, String.toList_append, String.toList_append,
    String.toList_intercalate, List.map_map, hmember]
  exact congrArg ('\x7b' :: · ++ ['\x7d']) (intercalate_comma memberChars ms)

/-! ## Where a value ends -/

/-- What may follow a value. -/
def EndsValue (rest : List Char) : Prop := ∀ c ∈ rest.head?, c = ',' ∨ c = ']' ∨ c = '\x7d'

variable {α : Type} {write : α → List Char} {a : α} {as bs : List α} {r r' : List Char}
  {stop : Char}

lemma EndsValue.endsNumeral (h : EndsValue r) : Token.EndsNumeral r := by
  intro c hc
  rcases h c hc with rfl | rfl | rfl <;> decide

/-- What is behind an item: a comma and the next one, or the bracket. -/
lemma endsValue_flatMap (hstop : stop = ']' ∨ stop = '\x7d') :
    EndsValue ((as.flatMap fun a => ',' :: write a) ++ stop :: r) := by
  intro c hc
  cases as with
  | nil => exact Option.some.inj hc ▸ .inr hstop
  | cons a as => exact .inl (Option.some.inj hc).symm

/-- If each item is read in one way only, so are the items behind the first one. -/
lemma flatMap_inj (hstop : stop = ']' ∨ stop = '\x7d')
    (hread : ∀ a ∈ as, ∀ b ∈ bs, ∀ r r', EndsValue r → EndsValue r' →
      write a ++ r = write b ++ r' → a = b ∧ r = r')
    (h : (as.flatMap fun a => ',' :: write a) ++ stop :: r =
      (bs.flatMap fun b => ',' :: write b) ++ stop :: r') : as = bs ∧ r = r' := by
  have hcomma : stop ≠ ',' := by rcases hstop with rfl | rfl <;> decide
  induction as generalizing bs with
  | nil =>
    cases bs with
    | nil => exact ⟨rfl, (List.cons.inj h).2⟩
    | cons b bs => exact absurd (List.cons.inj h).1 hcomma
  | cons a as ih =>
    cases bs with
    | nil => exact absurd (List.cons.inj h).1.symm hcomma
    | cons b bs =>
      rw [List.flatMap_cons, List.flatMap_cons, List.append_assoc, List.append_assoc,
        List.cons_append, List.cons_append] at h
      obtain ⟨rfl, hrest⟩ := hread a (List.mem_cons_self ..) b (List.mem_cons_self ..) _ _
        (endsValue_flatMap hstop) (endsValue_flatMap hstop) (List.cons.inj h).2
      obtain ⟨rfl, hr⟩ := ih (fun a ha b hb =>
        hread a (List.mem_cons_of_mem _ ha) b (List.mem_cons_of_mem _ hb)) hrest
      exact ⟨rfl, hr⟩

/-- A value starts with a character that ends none. -/
def Starts (cs : List Char) : Prop := ∃ c rest, cs = c :: rest ∧ c ≠ ']' ∧ c ≠ '\x7d'

lemma Starts.ne (h : Starts (write a)) (hstop : stop = ']' ∨ stop = '\x7d') :
    write a ++ r ≠ stop :: r' := by
  obtain ⟨c, rest, hwrite, hitem, hmember⟩ := h
  rw [hwrite]
  intro heq
  have hc : c = stop := (List.cons.inj heq).1
  rcases hstop with rfl | rfl
  · exact hitem hc
  · exact hmember hc

/-- **Items are read in one way only** if each of them is. -/
lemma commaSeparated_inj (hstop : stop = ']' ∨ stop = '\x7d')
    (hstarts : ∀ a ∈ as ++ bs, Starts (write a))
    (hread : ∀ a ∈ as, ∀ b ∈ bs, ∀ r r', EndsValue r → EndsValue r' →
      write a ++ r = write b ++ r' → a = b ∧ r = r')
    (h : commaSeparated write as ++ stop :: r = commaSeparated write bs ++ stop :: r') :
    as = bs ∧ r = r' := by
  cases as with
  | nil =>
    cases bs with
    | nil => exact ⟨rfl, (List.cons.inj h).2⟩
    | cons b bs =>
      rw [commaSeparated, commaSeparated, List.append_assoc] at h
      exact absurd h.symm ((hstarts b (by simp)).ne hstop)
  | cons a as =>
    cases bs with
    | nil =>
      rw [commaSeparated, commaSeparated, List.append_assoc] at h
      exact absurd h ((hstarts a (by simp)).ne hstop)
    | cons b bs =>
      rw [commaSeparated, commaSeparated, List.append_assoc, List.append_assoc] at h
      obtain ⟨rfl, hrest⟩ := hread a (List.mem_cons_self ..) b (List.mem_cons_self ..) _ _
        (endsValue_flatMap hstop) (endsValue_flatMap hstop) h
      obtain ⟨rfl, hr⟩ := flatMap_inj hstop (fun a ha b hb =>
        hread a (List.mem_cons_of_mem _ ha) b (List.mem_cons_of_mem _ hb)) hrest
      exact ⟨rfl, hr⟩

/-! ## Finite numbers -/

/-- A document is a part of another one, or the same. -/
inductive Within : Document → Document → Prop
  | self (d : Document) : Within d d
  | item {x d : Document} {items : List Document} (hd : d ∈ items) (hx : Within x d) :
    Within x (array items)
  | member {x : Document} {m : String × Document} {ms : List (String × Document)} (hm : m ∈ ms)
    (hx : Within x m.2) : Within x (object ms)

lemma Within.eq_of_isScalar {x d : Document} (h : Within x d) (hd : d.isScalar) : x = d := by
  cases h with
  | self => rfl
  | item | member => cases hd

/-- All doubles of a document are finite, as written numbers are. -/
def AllFinite (d : Document) : Prop := ∀ x, Within (float x) d → Binary64.isFinite x

variable {a b d : Document} {items : List Document} {ms : List (String × Document)}

lemma AllFinite.item (h : (array items).AllFinite) (hd : d ∈ items) : d.AllFinite :=
  fun x hx => h x (.item hd hx)

lemma AllFinite.member {m : String × Document} (h : (object ms).AllFinite) (hm : m ∈ ms) :
    m.2.AllFinite :=
  fun x hx => h x (.member hm hx)

/-! ## Kinds -/

/-- What a printed document starts as. -/
inductive Kind where
  | null
  | bool
  | number
  | text
  | array
  | object
  deriving DecidableEq

/-- The kind of a document. -/
def kind : Document → Kind
  | null => .null
  | bool _ => .bool
  | int _ | float _ => .number
  | text _ => .text
  | array _ => .array
  | object _ => .object

/-- The kind of document that starts with a character. -/
def kindOf? (c : Char) : Option Kind :=
  if c = 'n' then some .null
  else if c = 't' ∨ c = 'f' then some .bool
  else if c = '-' ∨ c.isDigit then some .number
  else if c = '"' then some .text
  else if c = '[' then some .array
  else if c = '\x7b' then some .object
  else none

lemma kindOf?_isDigit {c : Char} (h : c.isDigit) : kindOf? c = some .number := by
  have hletter : c ≠ 'n' ∧ c ≠ 't' ∧ c ≠ 'f' := by
    refine ⟨?_, ?_, ?_⟩ <;> rintro rfl <;> exact absurd h (by decide)
  simp [kindOf?, hletter, h]

/-- A proper numeral starts with its sign or with a digit. -/
lemma kindOf?_numeral {n : Numeral} {plus : Bool} (hn : n.IsProper) :
    ∃ c cs, n.chars plus = c :: cs ∧ kindOf? c = some .number := by
  obtain ⟨d, ds, hds⟩ := List.exists_cons_of_ne_nil hn.whole_ne
  have hfirst : (Nat.digitChar d).isDigit :=
    isDigit_digitChar (hn.whole_lt d (hds ▸ List.mem_cons_self ..))
  rw [Numeral.chars, hds]
  cases n.negative with
  | true => exact ⟨_, _, rfl, by decide⟩
  | false => exact ⟨_, _, rfl, kindOf?_isDigit hfirst⟩

/-- **The first character tells the kind.** -/
lemma kindOf?_chars (h : d.AllFinite) : ∃ c cs, d.chars = c :: cs ∧ kindOf? c = some d.kind := by
  cases d with
  | null => exact ⟨_, _, rfl, rfl⟩
  | bool b => cases b <;> exact ⟨_, _, rfl, rfl⟩
  | int i =>
    rw [chars, print, ← Numeral.chars_ofInt i false]
    exact kindOf?_numeral (Numeral.isProper_ofInt i)
  | float x =>
    have hx : Binary64.isFinite x := h x (.self _)
    rw [chars, print, numberLayout.toList_render hx]
    exact kindOf?_numeral (numberLayout.writes_numeral hx).isProper
  | text s => exact ⟨_, _, toList_quote s, rfl⟩
  | array items => exact ⟨_, _, chars_array items, rfl⟩
  | object ms => exact ⟨_, _, chars_object ms, rfl⟩

lemma starts_chars (h : d.AllFinite) : Starts d.chars := by
  obtain ⟨c, cs, hchars, hkind⟩ := kindOf?_chars h
  refine ⟨c, cs, hchars, ?_, ?_⟩ <;> rintro rfl <;> cases hkind

lemma starts_memberChars (m : String × Document) : Starts (memberChars m) := by
  rw [memberChars, toList_quote]
  exact ⟨_, _, rfl, by decide, by decide⟩

/-- Documents that start the same text are of one kind. -/
lemma kind_eq (ha : a.AllFinite) (hb : b.AllFinite) (h : a.chars ++ r = b.chars ++ r') :
    a.kind = b.kind := by
  obtain ⟨c, cs, hchars, hkind⟩ := kindOf?_chars ha
  obtain ⟨c', cs', hchars', hkind'⟩ := kindOf?_chars hb
  rw [hchars, hchars'] at h
  rw [← Option.some.injEq, ← hkind, ← hkind', (List.cons.inj h).1]

/-! ## Reading in one way only -/

/-- The numeral of a number. -/
def numeral? : Document → Option Numeral
  | int i => some (.ofInt i)
  | float x => some (numberLayout.numeral x)
  | _ => none

lemma token_numeral?_chars {n : Numeral} (hd : d.AllFinite) (hn : d.numeral? = some n)
    (hr : EndsValue r) : Token.numeral? (d.chars ++ r) = some (n, r) := by
  cases d with
  | int i =>
    obtain rfl := Option.some.inj hn
    exact Token.numeral?_toString i hr.endsNumeral
  | float x =>
    obtain rfl := Option.some.inj hn
    exact Token.numeral?_render numberLayout (hd x (.self _)) hr.endsNumeral
  | _ => cases hn

/-- The numerals of different numbers are different. -/
lemma eq_of_numeral?_eq {n : Numeral} (ha : a.AllFinite) (hb : b.AllFinite)
    (hna : a.numeral? = some n) (hnb : b.numeral? = some n) : a = b := by
  cases a with
  | int i =>
    obtain rfl := Option.some.inj hna
    cases b with
    | int j => rw [Numeral.ofInt_inj (Option.some.inj hnb)]
    | float y =>
      have hfloat := (numberLayout.writes_numeral (hb y (.self _))).isFloat
      rw [Option.some.inj hnb] at hfloat
      simp [Numeral.ofInt] at hfloat
    | _ => cases hnb
  | float x =>
    obtain rfl := Option.some.inj hna
    have hx : Binary64.isFinite x := ha x (.self _)
    cases b with
    | int j =>
      have hfloat := (numberLayout.writes_numeral hx).isFloat
      rw [← Option.some.inj hnb] at hfloat
      simp [Numeral.ofInt] at hfloat
    | float y =>
      have hy : Binary64.isFinite y := hb y (.self _)
      have hwrites := numberLayout.writes_numeral hy
      rw [Option.some.inj hnb] at hwrites
      rw [(numberLayout.writes_numeral hx).unique hwrites hx hy]
    | _ => cases hnb
  | _ => cases hna

lemma number_append_inj {n m : Numeral} (ha : a.AllFinite) (hb : b.AllFinite)
    (hna : a.numeral? = some n) (hnb : b.numeral? = some m) (hr : EndsValue r)
    (hr' : EndsValue r') (h : a.chars ++ r = b.chars ++ r') : a = b ∧ r = r' := by
  have hread := token_numeral?_chars ha hna hr
  rw [h, token_numeral?_chars hb hnb hr', Option.some.injEq, Prod.mk.injEq] at hread
  obtain ⟨rfl, rfl⟩ := hread
  exact ⟨eq_of_numeral?_eq ha hb hna hnb, rfl⟩

lemma quote_append_inj {s t : String}
    (h : (quote s).toList ++ r = (quote t).toList ++ r') : s = t ∧ r = r' := by
  rw [toList_quote, toList_quote, List.cons_append, List.cons_append, List.append_assoc,
    List.append_assoc] at h
  have hread := Token.scanText_flatMap s.toList r
  rw [← List.singleton_append, (List.cons.inj h).2, List.singleton_append,
    Token.scanText_flatMap, Option.some.injEq, Prod.mk.injEq] at hread
  exact ⟨String.toList_injective hread.1.symm, hread.2.symm⟩

lemma scalar_append_inj (ha : a.AllFinite) (hb : b.AllFinite) (hscalar : a.isScalar)
    (hkind : a.kind = b.kind) (hr : EndsValue r) (hr' : EndsValue r')
    (h : a.chars ++ r = b.chars ++ r') : a = b ∧ r = r' := by
  cases a with
  | null =>
    cases b with
    | null => exact ⟨rfl, List.append_cancel_left h⟩
    | _ => cases hkind
  | bool x =>
    cases b with
    | bool y =>
      have hfirst : x = y := by
        cases x <;> cases y
        · rfl
        · exact absurd (List.cons.inj h).1 (by decide)
        · exact absurd (List.cons.inj h).1 (by decide)
        · rfl
      subst hfirst
      exact ⟨rfl, List.append_cancel_left h⟩
    | _ => cases hkind
  | int i =>
    cases b with
    | int | float => exact number_append_inj ha hb rfl rfl hr hr' h
    | _ => cases hkind
  | float x =>
    cases b with
    | int | float => exact number_append_inj ha hb rfl rfl hr hr' h
    | _ => cases hkind
  | text s =>
    cases b with
    | text t =>
      obtain ⟨rfl, hrest⟩ := quote_append_inj h
      exact ⟨rfl, hrest⟩
    | _ => cases hkind
  | array | object => cases hscalar

/-- A member is read in one way only if its value is. -/
lemma member_append_inj {m n : String × Document}
    (hread : m.2.chars ++ r = n.2.chars ++ r' → m.2 = n.2 ∧ r = r')
    (h : memberChars m ++ r = memberChars n ++ r') : m = n ∧ r = r' := by
  rw [memberChars, memberChars, List.append_assoc, List.append_assoc] at h
  obtain ⟨hkey, hvalue⟩ := quote_append_inj h
  obtain ⟨hvalue, hrest⟩ := hread (List.cons.inj hvalue).2
  exact ⟨Prod.ext hkey hvalue, hrest⟩

/-- **One document only** starts a text, up to the point where a value may end. -/
theorem chars_append_inj (ha : a.AllFinite) (hb : b.AllFinite) (hr : EndsValue r)
    (hr' : EndsValue r') (h : a.chars ++ r = b.chars ++ r') : a = b ∧ r = r' := by
  have hkind := kind_eq ha hb h
  induction a using of_parts generalizing b r r' with
  | scalar a hscalar => exact scalar_append_inj ha hb hscalar hkind hr hr' h
  | array items ih =>
    cases b with
    | array items' =>
      have hstarts : ∀ d ∈ items ++ items', Starts d.chars := fun d hd =>
        (List.mem_append.mp hd).elim (fun hd => starts_chars (ha.item hd))
          fun hd => starts_chars (hb.item hd)
      have hread : ∀ x ∈ items, ∀ y ∈ items', ∀ r r', EndsValue r → EndsValue r' →
          x.chars ++ r = y.chars ++ r' → x = y ∧ r = r' := fun x hx y hy r r' hr hr' h =>
        ih x hx (ha.item hx) (hb.item hy) hr hr' h (kind_eq (ha.item hx) (hb.item hy) h)
      rw [chars_array, chars_array, List.cons_append, List.cons_append, List.append_assoc,
        List.append_assoc] at h
      obtain ⟨rfl, hrest⟩ := commaSeparated_inj (.inl rfl) hstarts hread (List.cons.inj h).2
      exact ⟨rfl, hrest⟩
    | _ => cases hkind
  | object ms ih =>
    cases b with
    | object ms' =>
      have hread : ∀ m ∈ ms, ∀ n ∈ ms', ∀ r r', EndsValue r → EndsValue r' →
          memberChars m ++ r = memberChars n ++ r' → m = n ∧ r = r' := fun m hm n hn r r' hr hr' =>
        member_append_inj fun h => ih m hm (ha.member hm) (hb.member hn) hr hr' h
          (kind_eq (ha.member hm) (hb.member hn) h)
      rw [chars_object, chars_object, List.cons_append, List.cons_append, List.append_assoc,
        List.append_assoc] at h
      obtain ⟨rfl, hrest⟩ :=
        commaSeparated_inj (.inr rfl) (fun m _ => starts_memberChars m) hread (List.cons.inj h).2
      exact ⟨rfl, hrest⟩
    | _ => cases hkind

/-- **Documents with the same text are the same**, with their members in the same order. -/
theorem eq_of_print_eq (ha : a.AllFinite) (hb : b.AllFinite) (h : a.print = b.print) : a = b := by
  have hend : EndsValue [] := nofun
  have hchars : a.chars ++ [] = b.chars ++ [] := by rw [chars, chars, h]
  exact (chars_append_inj ha hb hend hend hchars).1

end Document

end EntityFilter
