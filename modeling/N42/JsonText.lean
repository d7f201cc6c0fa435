import N42.TextEncoding

/-!
Compact JSON texts over plain strings and integers: a writer, a reader for what it
writes, and the round trip through both.
-/

namespace N42.JsonText

open TextEncoding

inductive Json where
  | null
  | bool (value : Bool)
  | num (value : Int)
  | str (text : PlainText)
  | arr (items : List Json)
  | obj (members : List (PlainText × Json))

def renderInt : Int → List UInt8
  | .ofNat value => decimal value
  | .negSucc value => 45 :: decimal (value + 1)

def renderText (text : PlainText) : List UInt8 :=
  34 :: (text.val ++ [34])

mutual

def render : Json → List UInt8
  | .null => ascii "null"
  | .bool true => ascii "true"
  | .bool false => ascii "false"
  | .num value => renderInt value
  | .str text => renderText text
  | .arr [] => [91, 93]
  | .arr (item :: items) => 91 :: (render item ++ renderItems items)
  | .obj [] => [123, 125]
  | .obj ((name, value) :: members) =>
    123 :: (renderText name ++ 58 :: (render value ++ renderMembers members))

def renderItems : List Json → List UInt8
  | [] => [93]
  | item :: items => 44 :: (render item ++ renderItems items)

def renderMembers : List (PlainText × Json) → List UInt8
  | [] => [125]
  | (name, value) :: members =>
    44 :: (renderText name ++ 58 :: (render value ++ renderMembers members))

end

def parseDigits (input : List UInt8) : Option (Nat × List UInt8) :=
  let digits := input.takeWhile isDigit
  if digits = [] then none else some (ofDecimal digits, input.dropWhile isDigit)

def parseInt (input : List UInt8) : Option (Int × List UInt8) :=
  if input.head? = some 45 then
    (parseDigits input.tail).map fun (value, rest) => (-(value : Int), rest)
  else
    (parseDigits input).map fun (value, rest) => ((value : Int), rest)

def parseText : List UInt8 → Option (PlainText × List UInt8)
  | [] => none
  | c :: input =>
    if c = 34 then some (⟨[], rfl⟩, input)
    else if h : isPlain c then
      (parseText input).map fun (text, rest) =>
        (⟨c :: text.val, by rw [List.all_cons, h, text.property]; rfl⟩, rest)
    else none

def parseWord (word : List UInt8) (value : Json) (input : List UInt8) :
    Option (Json × List UInt8) :=
  if word.isPrefixOf input then some (value, input.drop word.length) else none

mutual

def parseValue : Nat → List UInt8 → Option (Json × List UInt8)
  | 0, _ => none
  | _, [] => none
  | fuel + 1, c :: rest =>
    if c = 110 then parseWord (ascii "ull") .null rest
    else if c = 116 then parseWord (ascii "rue") (.bool true) rest
    else if c = 102 then parseWord (ascii "alse") (.bool false) rest
    else if c = 34 then (parseText rest).map fun (text, rest) => (.str text, rest)
    else if c = 91 then
      if rest.head? = some 93 then some (.arr [], rest.tail)
      else do
        let (item, rest) ← parseValue fuel rest
        let (items, rest) ← parseItems fuel rest
        return (.arr (item :: items), rest)
    else if c = 123 then
      if rest.head? = some 125 then some (.obj [], rest.tail)
      else do
        let (member, rest) ← parseMember fuel rest
        let (members, rest) ← parseMembers fuel rest
        return (.obj (member :: members), rest)
    else (parseInt (c :: rest)).map fun (value, rest) => (.num value, rest)

def parseItems : Nat → List UInt8 → Option (List Json × List UInt8)
  | 0, _ => none
  | fuel + 1, input =>
    match input with
    | 93 :: rest => some ([], rest)
    | 44 :: rest => do
        let (item, rest) ← parseValue fuel rest
        let (items, rest) ← parseItems fuel rest
        return (item :: items, rest)
    | _ => none

def parseMember : Nat → List UInt8 → Option ((PlainText × Json) × List UInt8)
  | 0, _ => none
  | fuel + 1, input =>
    match input with
    | 34 :: rest => do
        let (name, rest) ← parseText rest
        match rest with
        | 58 :: rest => do
            let (value, rest) ← parseValue fuel rest
            return ((name, value), rest)
        | _ => none
    | _ => none

def parseMembers : Nat → List UInt8 → Option (List (PlainText × Json) × List UInt8)
  | 0, _ => none
  | fuel + 1, input =>
    match input with
    | 125 :: rest => some ([], rest)
    | 44 :: rest => do
        let (member, rest) ← parseMember fuel rest
        let (members, rest) ← parseMembers fuel rest
        return (member :: members, rest)
    | _ => none

end

def parse (input : List UInt8) : Option Json :=
  match parseValue (input.length + 1) input with
  | some (value, []) => some value
  | _ => none

def EndsNumber (rest : List UInt8) : Prop :=
  ∀ c, rest.head? = some c → isDigit c = false

variable {rest : List UInt8}

theorem parseDigits_decimal (value : Nat) (hrest : EndsNumber rest) :
    parseDigits (decimal value ++ rest) = some (value, rest) := by
  have hdigits := List.all_eq_true.mp (decimal_all_isDigit value)
  have htake : rest.takeWhile isDigit = [] := by
    cases rest with
    | nil => rfl
    | cons c rest => simp [hrest c rfl]
  have hdrop : rest.dropWhile isDigit = rest := by
    cases rest with
    | nil => rfl
    | cons c rest => simp [hrest c rfl]
  unfold parseDigits
  rw [List.takeWhile_append_of_pos hdigits, List.dropWhile_append_of_pos hdigits, htake,
    hdrop, List.append_nil, if_neg (decimal_ne_nil value), ofDecimal_decimal]

theorem decimal_head (value : Nat) : ∃ c tail, decimal value = c :: tail ∧ isDigit c = true := by
  obtain ⟨c, tail, h⟩ := List.exists_cons_of_ne_nil (decimal_ne_nil value)
  have hall := List.all_eq_true.mp (decimal_all_isDigit value)
  exact ⟨c, tail, h, hall c (by simp [h])⟩

theorem parseInt_renderInt (value : Int) (hrest : EndsNumber rest) :
    parseInt (renderInt value ++ rest) = some (value, rest) := by
  cases value with
  | ofNat value =>
    obtain ⟨c, tail, hc, hdigit⟩ := decimal_head value
    have hhead : (decimal value ++ rest).head? ≠ some 45 := by
      rw [hc]
      rintro ⟨rfl⟩
      simp [isDigit] at hdigit
    rw [renderInt, parseInt, if_neg hhead, parseDigits_decimal value hrest]
    rfl
  | negSucc value =>
    simp [renderInt, parseInt, parseDigits_decimal (value + 1) hrest]
    omega

theorem parseText_renderText (text : PlainText) (rest : List UInt8) :
    parseText (text.val ++ 34 :: rest) = some (text, rest) := by
  obtain ⟨text, htext⟩ := text
  induction text with
  | nil => rfl
  | cons c text ih =>
    rw [List.all_cons, Bool.and_eq_true] at htext
    have hquote : c ≠ 34 := by
      rintro rfl
      simp [isPlain] at htext
    simp [parseText, hquote, htext.1, ih htext.2]

theorem renderInt_head (value : Int) :
    ∃ c tail, renderInt value = c :: tail ∧ (c = 45 ∨ isDigit c = true) := by
  cases value with
  | ofNat value =>
    obtain ⟨c, tail, hc, hdigit⟩ := decimal_head value
    exact ⟨c, tail, hc, .inr hdigit⟩
  | negSucc value => exact ⟨45, _, rfl, .inl rfl⟩

theorem render_head (value : Json) : ∃ c tail, render value = c :: tail ∧ c ≠ 93 := by
  cases value with
  | num value =>
    obtain ⟨c, tail, hc, hclass⟩ := renderInt_head value
    refine ⟨c, tail, hc, ?_⟩
    rintro rfl
    simp [isDigit] at hclass
  | bool value => cases value <;> exact ⟨_, _, rfl, by decide⟩
  | null => exact ⟨_, _, rfl, by decide⟩
  | str text => exact ⟨_, _, rfl, by decide⟩
  | arr items => cases items <;> exact ⟨_, _, rfl, by decide⟩
  | obj members =>
    rcases members with _ | ⟨⟨name, value⟩, members⟩ <;> exact ⟨_, _, rfl, by decide⟩

theorem renderItems_endsNumber (items : List Json) (rest : List UInt8) :
    EndsNumber (renderItems items ++ rest) := by
  cases items <;> rintro c ⟨rfl⟩ <;> decide

theorem renderMembers_endsNumber (members : List (PlainText × Json)) (rest : List UInt8) :
    EndsNumber (renderMembers members ++ rest) := by
  rcases members with _ | ⟨⟨name, value⟩, members⟩ <;> rintro c ⟨rfl⟩ <;> decide

theorem parseMember_render {fuel : Nat} (name : PlainText) {value : Json}
    (hvalue : parseValue fuel (render value ++ rest) = some (value, rest)) :
    parseMember (fuel + 1) (renderText name ++ 58 :: (render value ++ rest)) =
      some ((name, value), rest) := by
  simp [renderText, parseMember, parseText_renderText, hvalue]

mutual

theorem parseValue_render (value : Json) (fuel : Nat) (rest : List UInt8)
    (hfuel : (render value).length < fuel) (hrest : EndsNumber rest) :
    parseValue fuel (render value ++ rest) = some (value, rest) := by
  obtain ⟨fuel, rfl⟩ : ∃ k, fuel = k + 1 := ⟨fuel - 1, by omega⟩
  match value with
  | .null => rfl
  | .bool true => rfl
  | .bool false => rfl
  | .num n =>
    obtain ⟨c, tail, hc, hclass⟩ := renderInt_head n
    have hother : c ≠ 110 ∧ c ≠ 116 ∧ c ≠ 102 ∧ c ≠ 34 ∧ c ≠ 91 ∧ c ≠ 123 := by
      refine ⟨?_, ?_, ?_, ?_, ?_, ?_⟩ <;> (rintro rfl; simp [isDigit] at hclass)
    have hint := parseInt_renderInt n hrest
    rw [hc, List.cons_append] at hint
    simp [render, hc, parseValue, hother, hint]
  | .str text =>
    simp [render, renderText, parseValue, parseText_renderText]
  | .arr [] => rfl
  | .arr (item :: items) =>
    simp only [render, List.length_cons, List.length_append] at hfuel
    obtain ⟨c, tail, hc, hne⟩ := render_head item
    have hitem := parseValue_render item fuel (renderItems items ++ rest) (by omega)
      (renderItems_endsNumber items rest)
    have hitems := parseItems_render items fuel rest (by omega)
    have hhead : (render item ++ (renderItems items ++ rest)).head? ≠ some 93 := by
      rw [hc]
      rintro ⟨rfl⟩
      exact hne rfl
    rw [render, List.cons_append, List.append_assoc, parseValue]
    simp only [if_neg hhead, hitem, Option.bind_eq_bind, Option.bind_some, hitems]
    rfl
  | .obj [] => rfl
  | .obj ((name, value) :: members) =>
    simp only [render, renderText, List.length_cons, List.length_append] at hfuel
    obtain ⟨fuel, rfl⟩ : ∃ k, fuel = k + 1 := ⟨fuel - 1, by omega⟩
    have hmember := parseMember_render name (parseValue_render value fuel
      (renderMembers members ++ rest) (by omega) (renderMembers_endsNumber members rest))
    have hmembers := parseMembers_render members (fuel + 1) rest (by omega)
    rw [render, List.cons_append, List.append_assoc, List.cons_append, List.append_assoc,
      parseValue]
    simp only [hmember, Option.bind_eq_bind, Option.bind_some, hmembers]
    rfl

theorem parseItems_render (items : List Json) (fuel : Nat) (rest : List UInt8)
    (hfuel : (renderItems items).length < fuel) :
    parseItems fuel (renderItems items ++ rest) = some (items, rest) := by
  obtain ⟨fuel, rfl⟩ : ∃ k, fuel = k + 1 := ⟨fuel - 1, by omega⟩
  match items with
  | [] => rfl
  | item :: items =>
    simp only [renderItems, List.length_cons, List.length_append] at hfuel
    have hitem := parseValue_render item fuel (renderItems items ++ rest) (by omega)
      (renderItems_endsNumber items rest)
    have hitems := parseItems_render items fuel rest (by omega)
    rw [renderItems, List.cons_append, List.append_assoc, parseItems]
    simp only [hitem, Option.bind_eq_bind, Option.bind_some, hitems]
    rfl

theorem parseMembers_render (members : List (PlainText × Json)) (fuel : Nat)
    (rest : List UInt8) (hfuel : (renderMembers members).length < fuel) :
    parseMembers fuel (renderMembers members ++ rest) = some (members, rest) := by
  obtain ⟨fuel, rfl⟩ : ∃ k, fuel = k + 1 := ⟨fuel - 1, by omega⟩
  match members with
  | [] => rfl
  | (name, value) :: members =>
    simp only [renderMembers, renderText, List.length_cons, List.length_append] at hfuel
    obtain ⟨fuel, rfl⟩ : ∃ k, fuel = k + 1 := ⟨fuel - 1, by omega⟩
    have hmember := parseMember_render name (parseValue_render value fuel
      (renderMembers members ++ rest) (by omega) (renderMembers_endsNumber members rest))
    have hmembers := parseMembers_render members (fuel + 1) rest (by omega)
    rw [renderMembers, List.cons_append, List.append_assoc, List.cons_append,
      List.append_assoc, parseMembers]
    simp only [hmember, Option.bind_eq_bind, Option.bind_some, hmembers]
    rfl

end

theorem parse_render (value : Json) : parse (render value) = some value := by
  have h := parseValue_render value ((render value).length + 1) [] (by omega) (by rintro c ⟨⟩)
  rw [List.append_nil] at h
  rw [parse, h]

theorem render_injective {a b : Json} (h : render a = render b) : a = b := by
  have ha := parse_render a
  rw [h, parse_render] at ha
  exact (Option.some.inj ha).symm

example : render (.obj [(plain "a", .arr [.num 10, .bool true])]) =
    ascii "\x7b\"a\":[10,true]\x7d" := by decide

end N42.JsonText
