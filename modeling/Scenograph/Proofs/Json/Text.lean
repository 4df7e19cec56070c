import Mathlib.Data.Char
import Mathlib.Data.List.DropRight
import Mathlib.Tactic.IntervalCases
import Scenograph.Proofs.Json.Decimal

namespace Scenograph.Json

def pieceOf (c : Char) : Piece :=
  if c.toNat < 0x20 ∧ c ∉ ['\x08', '\x0c', '\n', '\r', '\t'] then .unit c.toNat else .char c

theorem hexUnit?_control {n : Nat} (h : n < 0x20) :
    hexUnit? '0' '0' (Nat.digitChar (n / 16)) (Nat.digitChar (n % 16)) = some n := by
  interval_cases n <;> rfl

theorem readPieces_plain (acc : List Piece) (cs : List Char) {c : Char} (hquote : c ≠ '"')
    (hslash : c ≠ '\\') (hcontrol : ¬c.toNat < 0x20) :
    readPieces acc (c :: cs) = readPieces (.char c :: acc) cs := by
  rw [readPieces.eq_def]
  split
  · next heq => cases heq
  · next heq => exact absurd (List.cons.inj heq).1 hquote
  · next heq => exact absurd (List.cons.inj heq).1 hslash
  · next heq => exact absurd (List.cons.inj heq).1 hslash
  · next heq =>
      cases heq
      exact if_neg hcontrol

theorem readPieces_simple (acc : List Piece) (cs : List Char) {c e : Char} (he : e ≠ 'u')
    (h : simpleEscape? e = some c) :
    readPieces acc ('\\' :: e :: cs) = readPieces (.char c :: acc) cs := by
  rw [readPieces.eq_def]
  split
  · next heq => cases heq
  · next heq => cases heq
  · next heq =>
      cases heq
      exact absurd rfl he
  · next heq =>
      cases heq
      rw [h]
  · next hshort heq =>
      cases heq
      exact (hshort _ _ rfl rfl).elim

theorem readPieces_escapeChar (acc : List Piece) (c : Char) (cs : List Char) :
    readPieces acc (escapeChar c ++ cs) = readPieces (pieceOf c :: acc) cs := by
  by_cases hshort : c ∈ ['"', '\\', '\x08', '\x0c', '\n', '\r', '\t']
  · simp only [List.mem_cons, List.not_mem_nil, or_false] at hshort
    rcases hshort with rfl | rfl | rfl | rfl | rfl | rfl | rfl <;>
      exact readPieces_simple acc cs (by decide) rfl
  · have hcode : c.toNat ≠ 0x8 ∧ c.toNat ≠ 0xC := by
      constructor
      · intro h
        have : c = '\x08' := by rw [← Char.ofNat_toNat c, h]
        simp [this] at hshort
      · intro h
        have : c = '\x0c' := by rw [← Char.ofNat_toNat c, h]
        simp [this] at hshort
    simp only [List.mem_cons, List.not_mem_nil, or_false, not_or] at hshort
    obtain ⟨hquote, hslash, hb, hf, hn, hr, ht⟩ := hshort
    by_cases hcontrol : c.toNat < 0x20
    · simp [escapeChar, pieceOf, hquote, hslash, hcode, hb, hf, hn, hr, ht, hcontrol, readPieces,
        hexUnit?_control hcontrol]
    · simp [escapeChar, pieceOf, hquote, hslash, hcode, hn, hr, ht, hcontrol,
        readPieces_plain acc cs hquote hslash hcontrol]

theorem readPieces_flatMap (acc : List Piece) (s rest : List Char) :
    readPieces acc (s.flatMap escapeChar ++ '"' :: rest)
      = some (acc.reverse ++ s.map pieceOf, rest) := by
  induction s generalizing acc with
  | nil => simp [readPieces]
  | cons c s ih =>
      rw [List.flatMap_cons, List.append_assoc, readPieces_escapeChar, ih]
      simp

theorem joinPieces_pieceOf (acc : List Char) (c : Char) (ps : List Piece) :
    joinPieces acc (pieceOf c :: ps) = joinPieces (c :: acc) ps := by
  unfold pieceOf
  split
  · next h =>
      have hhigh : isHighUnit c.toNat = false := by
        simp only [isHighUnit, Bool.and_eq_false_iff, decide_eq_false_iff_not]
        omega
      have hlow : isLowUnit c.toNat = false := by
        simp only [isLowUnit, Bool.and_eq_false_iff, decide_eq_false_iff_not]
        omega
      cases ps with
      | nil => simp [joinPieces, hhigh, hlow]
      | cons p ps => cases p <;> simp [joinPieces, hhigh, hlow]
  · rfl

theorem joinPieces_map (acc s : List Char) :
    joinPieces acc (s.map pieceOf) = some (String.ofList (acc.reverse ++ s)) := by
  induction s generalizing acc with
  | nil => simp [joinPieces]
  | cons c s ih => simp [joinPieces_pieceOf, ih]

theorem readString_quoted (s : String) (rest : List Char) :
    readString (s.toList.flatMap escapeChar ++ '"' :: rest) = some (some s, rest) := by
  simp [readString, readPieces_flatMap, joinPieces_map]

theorem skipSpace_newline (depth : Nat) (cs : List Char) :
    skipSpace (newline depth ++ cs) = skipSpace cs := by
  have hspace : ∀ c ∈ newline depth, isSpace c = true := by
    intro c hc
    rcases List.mem_cons.1 hc with rfl | hc
    · rfl
    · rw [List.eq_of_mem_replicate hc]
      rfl
  exact List.dropWhile_append_of_pos hspace

theorem skipSpace_cons {c : Char} (h : isSpace c = false) (cs : List Char) :
    skipSpace (c :: cs) = c :: cs := by
  simp [skipSpace, h]

theorem skipSpace_blank (cs : List Char) : skipSpace (' ' :: cs) = skipSpace cs := by
  simp [skipSpace, isSpace]

theorem skipSpace_skipSpace (cs : List Char) : skipSpace (skipSpace cs) = skipSpace cs :=
  List.dropWhile_idempotent _ _

theorem startsNumber_isSpace {c : Char} (hc : c = '-' ∨ c.isDigit = true) : isSpace c = false := by
  have hne := fun k => startsNumber_ne (k := k) hc
  simp [isSpace, hne]

theorem readValue_congr (fuel : Nat) {cs ds : List Char} (h : skipSpace cs = skipSpace ds) :
    readValue fuel cs = readValue fuel ds := by
  cases fuel with
  | zero => simp [readValue]
  | succ fuel => simp only [readValue, h]

theorem readItems_congr (fuel : Nat) {cs ds : List Char} (h : skipSpace cs = skipSpace ds) :
    readItems fuel cs = readItems fuel ds := by
  cases fuel with
  | zero => simp [readItems]
  | succ fuel => simp only [readItems, readValue_congr fuel h]

theorem readMembers_congr (fuel : Nat) {cs ds : List Char} (h : skipSpace cs = skipSpace ds) :
    readMembers fuel cs = readMembers fuel ds := by
  cases fuel with
  | zero => simp [readMembers]
  | succ fuel => simp only [readMembers, h]

/-- The values that have a text of their own: no part is cut, every string has its characters and
every number is finite. -/
inductive Writable : Nat → Json → Prop
  | null {depth : Nat} : Writable depth .null
  | bool {depth : Nat} (b : Bool) : Writable depth (.bool b)
  | int {depth : Nat} {n : Int} (hlow : -Nat.pow 2 63 ≤ n) (hhigh : n < Nat.pow 2 64) :
      Writable depth (.int n)
  | float {depth : Nat} {x : Float} (h : x.isFinite = true) : Writable depth (.float x)
  | str {depth : Nat} (s : String) : Writable depth (.str (some s))
  | arr {depth : Nat} {items : List Json} (h : ∀ v ∈ items, Writable depth v) :
      Writable (depth + 1) (.arr items)
  | obj {depth : Nat} {members : List (String × Json)} (hkeys : (members.map (·.1)).Nodup)
      (h : ∀ m ∈ members, Writable depth m.2) : Writable (depth + 1) (.record members)

def ReadsBack (v : Json) : Prop :=
  -- As much fuel as the text has characters is enough.
  ∀ (depth fuel : Nat) (rest : List Char), EndsNumber rest →
    (v.prettyChars depth).length ≤ fuel →
    readValue fuel (v.prettyChars depth ++ rest) = (v, some rest)

theorem StartsNumber.readValue {cs : List Char} (h : StartsNumber cs) (fuel : Nat)
    (rest : List Char) : readValue (fuel + 1) (cs ++ rest) = orCut (readNumber (cs ++ rest)) := by
  obtain ⟨c, ds, rfl, hc⟩ := h
  have hne := fun k => startsNumber_ne (k := k) hc
  rw [List.cons_append, Json.readValue, skipSpace_cons (startsNumber_isSpace hc)]
  split
  · next heq => exact absurd (List.cons.inj heq).1 (hne _ (by decide) (by decide))
  · next heq => exact absurd (List.cons.inj heq).1 (hne _ (by decide) (by decide))
  · next heq => exact absurd (List.cons.inj heq).1 (hne _ (by decide) (by decide))
  · next heq => exact absurd (List.cons.inj heq).1 (hne _ (by decide) (by decide))
  · next heq => exact absurd (List.cons.inj heq).1 (hne _ (by decide) (by decide))
  · next heq => exact absurd (List.cons.inj heq).1 (hne _ (by decide) (by decide))
  · rfl

theorem readsBack_number {v : Json} {cs : List Char} (htext : ∀ depth, v.prettyChars depth = cs)
    (hstart : StartsNumber cs)
    (hread : ∀ rest, EndsNumber rest → readNumber (cs ++ rest) = some (v, rest)) :
    ReadsBack v := by
  intro depth fuel rest hrest hfuel
  obtain ⟨c, ds, hcs, -⟩ := id hstart
  rw [htext] at hfuel ⊢
  cases fuel with
  | zero => simp [hcs] at hfuel
  | succ fuel => rw [hstart.readValue, hread rest hrest, orCut]

theorem endsNumber_newline (depth : Nat) (cs : List Char) : EndsNumber (newline depth ++ cs) :=
  endsNumber_cons (by decide)

theorem readValue_item {v : Json} (hv : ReadsBack v) {depth fuel : Nat} {rest : List Char}
    (hrest : EndsNumber rest) (hfuel : (v.prettyChars depth).length ≤ fuel) :
    readValue fuel (newline depth ++ v.prettyChars depth ++ rest) = (v, some rest) := by
  rw [List.append_assoc, readValue_congr fuel (skipSpace_newline depth _),
    hv depth fuel rest hrest hfuel]

theorem readItems_prettyItems {items : List Json} (hitems : ∀ v ∈ items, ReadsBack v)
    (hne : items ≠ []) {depth fuel : Nat} (outer : Nat) (rest : List Char)
    (hfuel : (prettyItems depth items).length ≤ fuel) :
    readItems fuel (prettyItems depth items ++ (newline outer ++ ']' :: rest))
      = (items, some rest) := by
  induction items generalizing fuel with
  | nil => exact absurd rfl hne
  | cons v vs ih =>
      have hv := hitems v (List.mem_cons_self ..)
      cases fuel with
      | zero => cases vs <;> simp [prettyItems, newline] at hfuel
      | succ fuel =>
          cases vs with
          | nil =>
              have hlen : (v.prettyChars depth).length ≤ fuel := by
                simp [prettyItems, newline] at hfuel
                omega
              rw [prettyItems, readItems, readValue_item hv (endsNumber_newline _ _) hlen]
              simp only [skipSpace_newline, skipSpace_cons (c := ']') (by decide)]
          | cons w vs =>
              have hlen : (v.prettyChars depth).length ≤ fuel
                  ∧ (prettyItems depth (w :: vs)).length ≤ fuel := by
                simp only [prettyItems, newline, List.length_append, List.length_cons] at hfuel ⊢
                omega
              have hnext := ih (fun u hu => hitems u (List.mem_cons_of_mem _ hu)) (by simp) hlen.2
              rw [prettyItems, List.append_assoc, readItems, List.cons_append,
                readValue_item hv (endsNumber_cons (by decide)) hlen.1]
              simp only [skipSpace_cons (c := ',') (by decide), hnext]
              simp

abbrev keyed (members : List (String × Json)) : List (Option String × Json) :=
  members.map fun m => (some m.1, m.2)

theorem readMembers_member {v : Json} (hv : ReadsBack v) (key : String) {depth fuel : Nat}
    {rest : List Char} (hrest : EndsNumber rest) (hfuel : (v.prettyChars depth).length ≤ fuel) :
    (∀ more, skipSpace rest = ',' :: more →
      readMembers (fuel + 1)
          (newline depth ++ quoted (some key) ++ ':' :: ' ' :: (v.prettyChars depth ++ rest))
        = ((some key, v) :: (readMembers fuel more).1, (readMembers fuel more).2))
    ∧ (∀ more, skipSpace rest = '\x7d' :: more →
      readMembers (fuel + 1)
          (newline depth ++ quoted (some key) ++ ':' :: ' ' :: (v.prettyChars depth ++ rest))
        = ([(some key, v)], some more)) := by
  have hvalue : readValue fuel (' ' :: (v.prettyChars depth ++ rest)) = (v, some rest) := by
    rw [readValue_congr fuel (skipSpace_blank _), hv depth fuel rest hrest hfuel]
  have hquote : skipSpace (quoted (some key) ++ ':' :: ' ' :: (v.prettyChars depth ++ rest))
      = '"' :: (key.toList.flatMap escapeChar
        ++ '"' :: ':' :: ' ' :: (v.prettyChars depth ++ rest)) := by
    simp [quoted, skipSpace, isSpace]
  rw [List.append_assoc, readMembers, skipSpace_newline, hquote]
  simp only [readString_quoted, skipSpace_cons (c := ':') (by decide), hvalue]
  -- What stands behind the value says whether there are more members.
  constructor
  · intro more hmore
    simp only [hmore]
  · intro more hmore
    simp only [hmore]

theorem readMembers_prettyMembers {members : List (String × Json)}
    (hmembers : ∀ m ∈ members, ReadsBack m.2) (hne : members ≠ []) {depth fuel : Nat} (outer : Nat)
    (rest : List Char) (hfuel : (prettyMembers depth (keyed members)).length ≤ fuel) :
    readMembers fuel (prettyMembers depth (keyed members) ++ (newline outer ++ '\x7d' :: rest))
      = (keyed members, some rest) := by
  induction members generalizing fuel with
  | nil => exact absurd rfl hne
  | cons m ms ih =>
      have hv := hmembers m (List.mem_cons_self ..)
      cases fuel with
      | zero => cases ms <;> simp [prettyMembers, newline] at hfuel
      | succ fuel =>
          cases ms with
          | nil =>
              have hlen : (m.2.prettyChars depth).length ≤ fuel := by
                simp [prettyMembers, newline] at hfuel
                omega
              have hlast : skipSpace (newline outer ++ '\x7d' :: rest) = '\x7d' :: rest := by
                rw [skipSpace_newline, skipSpace_cons (by decide)]
              have hread := (readMembers_member hv m.1 (endsNumber_newline _ _) hlen).2 _ hlast
              simpa [prettyMembers] using hread
          | cons m' ms =>
              have hlen : (m.2.prettyChars depth).length ≤ fuel
                  ∧ (prettyMembers depth (keyed (m' :: ms))).length ≤ fuel := by
                simp only [List.map_cons, prettyMembers, newline, List.length_append,
                  List.length_cons] at hfuel ⊢
                omega
              have hnext := ih (fun u hu => hmembers u (List.mem_cons_of_mem _ hu)) (by simp) hlen.2
              have hread := (readMembers_member hv m.1 (endsNumber_cons (by decide)) hlen.1).1 _
                (skipSpace_cons (by decide)
                  (prettyMembers depth (keyed (m' :: ms)) ++ (newline outer ++ '\x7d' :: rest)))
              rw [hnext] at hread
              simpa [prettyMembers] using hread

theorem StartsNumber.head {cs : List Char} (h : StartsNumber cs) :
    ∃ c ds, cs = c :: ds ∧ isSpace c = false ∧ c ≠ ']' := by
  obtain ⟨c, ds, rfl, hc⟩ := h
  exact ⟨c, ds, rfl, startsNumber_isSpace hc, startsNumber_ne hc (by decide) (by decide)⟩

theorem prettyChars_head {limit : Nat} {v : Json} (hv : Writable limit v) (depth : Nat) :
    ∃ c cs, v.prettyChars depth = c :: cs ∧ isSpace c = false ∧ c ≠ ']' := by
  cases hv with
  | null => exact ⟨_, _, rfl, by decide, by decide⟩
  | bool b => cases b <;> exact ⟨_, _, rfl, by decide, by decide⟩
  | @int _ n => exact (startsNumber_intText n).head
  | float hx => exact (startsNumber_floatText hx).head
  | str s => exact ⟨_, _, rfl, by decide, by decide⟩
  | @arr _ items hitems => cases items <;> exact ⟨_, _, rfl, by decide, by decide⟩
  | @obj _ members hkeys hmembers => cases members <;> exact ⟨_, _, rfl, by decide, by decide⟩

theorem prettyItems_cons (depth : Nat) (v : Json) (vs : List Json) :
    ∃ more, prettyItems depth (v :: vs) = newline depth ++ (v.prettyChars depth ++ more) := by
  cases vs with
  | nil => exact ⟨[], by simp [prettyItems]⟩
  | cons w vs => exact ⟨',' :: prettyItems depth (w :: vs), by simp [prettyItems]⟩

theorem readValue_bracket (fuel : Nat) {cs : List Char}
    (h : ∀ rest, skipSpace cs ≠ ']' :: rest) :
    readValue (fuel + 1) ('[' :: cs) = (.arr (readItems fuel cs).1, (readItems fuel cs).2) := by
  rw [readValue, skipSpace_cons (by decide)]
  simp only [readItems_congr fuel (skipSpace_skipSpace cs)]

theorem readsBack_arr {limit : Nat} {items : List Json} (hwritable : ∀ v ∈ items, Writable limit v)
    (hitems : ∀ v ∈ items, ReadsBack v) : ReadsBack (.arr items) := by
  intro depth fuel rest hrest hfuel
  cases fuel with
  | zero => cases items <;> simp [prettyChars] at hfuel
  | succ fuel =>
      cases items with
      | nil => simp [prettyChars, readValue, skipSpace, isSpace]
      | cons v vs =>
          obtain ⟨c, cs, htext, hspace, hc⟩ :=
            prettyChars_head (hwritable v (List.mem_cons_self ..)) (depth + 1)
          obtain ⟨more, hmore⟩ := prettyItems_cons (depth + 1) v vs
          have hlen : (prettyItems (depth + 1) (v :: vs)).length ≤ fuel := by
            simp only [prettyChars, List.length_cons, List.length_append] at hfuel
            omega
          have hread := readItems_prettyItems hitems (by simp) depth rest hlen
          have hopen : ∀ rest', skipSpace (prettyItems (depth + 1) (v :: vs)
              ++ (newline depth ++ ']' :: rest)) ≠ ']' :: rest' := by
            intro rest'
            rw [hmore, htext, List.append_assoc, skipSpace_newline]
            rw [List.cons_append, List.cons_append, skipSpace_cons hspace]
            simp [hc]
          have hbracket := readValue_bracket fuel hopen
          rw [hread] at hbracket
          simpa [prettyChars] using hbracket

theorem readValue_brace (fuel : Nat) {cs : List Char}
    (h : ∀ rest, skipSpace cs ≠ '\x7d' :: rest) :
    readValue (fuel + 1) ('\x7b' :: cs)
      = (.obj (readMembers fuel cs).1, (readMembers fuel cs).2) := by
  rw [readValue, skipSpace_cons (by decide)]
  simp only [readMembers_congr fuel (skipSpace_skipSpace cs)]

theorem prettyMembers_cons (depth : Nat) (m : String × Json) (ms : List (String × Json)) :
    ∃ more, prettyMembers depth (keyed (m :: ms)) = newline depth ++ '"' :: more := by
  cases ms with
  | nil => exact ⟨_, by simp [prettyMembers, quoted]; rfl⟩
  | cons m' ms => exact ⟨_, by simp [prettyMembers, quoted]; rfl⟩

theorem readsBack_record {members : List (String × Json)}
    (hmembers : ∀ m ∈ members, ReadsBack m.2) : ReadsBack (.record members) := by
  intro depth fuel rest hrest hfuel
  cases fuel with
  | zero => cases members <;> simp [record, prettyChars] at hfuel
  | succ fuel =>
      cases members with
      | nil => simp [record, prettyChars, readValue, skipSpace, isSpace]
      | cons m ms =>
          obtain ⟨more, hmore⟩ := prettyMembers_cons (depth + 1) m ms
          have hlen : (prettyMembers (depth + 1) (keyed (m :: ms))).length ≤ fuel := by
            simp only [record, List.map_cons, prettyChars, List.length_cons,
              List.length_append] at hfuel
            simp only [List.map_cons]
            omega
          have hread := readMembers_prettyMembers hmembers (by simp) depth rest hlen
          have hopen : ∀ rest', skipSpace (prettyMembers (depth + 1) (keyed (m :: ms))
              ++ (newline depth ++ '\x7d' :: rest)) ≠ '\x7d' :: rest' := by
            intro rest'
            rw [hmore, List.append_assoc, skipSpace_newline, List.cons_append,
              skipSpace_cons (by decide)]
            simp
          have hbrace := readValue_brace fuel hopen
          rw [hread] at hbrace
          simpa [record, prettyChars] using hbrace

theorem Writable.readsBack {limit : Nat} {v : Json} (hv : Writable limit v) : ReadsBack v := by
  induction hv with
  | null =>
      intro depth fuel rest hrest hfuel
      cases fuel with
      | zero => simp [prettyChars] at hfuel
      | succ fuel => simp [prettyChars, readValue, skipSpace, isSpace]
  | bool b =>
      intro depth fuel rest hrest hfuel
      cases fuel with
      | zero => cases b <;> simp [prettyChars] at hfuel
      | succ fuel => cases b <;> simp [prettyChars, readValue, skipSpace, isSpace]
  | @int _ n =>
      exact readsBack_number (fun _ => rfl) (startsNumber_intText n) fun _ => readNumber_intText n
  | float hx =>
      exact readsBack_number (fun _ => rfl) (startsNumber_floatText hx)
        fun _ => readNumber_floatText hx
  | str s =>
      intro depth fuel rest hrest hfuel
      cases fuel with
      | zero => simp [prettyChars, quoted] at hfuel
      | succ fuel =>
          simp [prettyChars, quoted, readValue, skipSpace, isSpace, readString_quoted, orCut]
  | arr hitems ih => exact readsBack_arr hitems ih
  | obj _ _ ih => exact readsBack_record ih

theorem read_pretty {limit : Nat} {v : Json} (hv : Writable limit v) :
    read v.pretty = ⟨v, true⟩ := by
  have hback := hv.readsBack 0 (2 * (v.prettyChars 0).length + 2) [] endsNumber_nil (by omega)
  rw [List.append_nil] at hback
  simp [read, pretty, hback, skipSpace]

end Scenograph.Json
