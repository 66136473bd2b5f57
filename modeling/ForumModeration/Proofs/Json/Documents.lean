import ForumModeration.Proofs.Json.Numbers
import ForumModeration.Proofs.Trees

/-!
# `ForumModeration.Proofs.Json.Documents`: documents are read back

`Written` says of a text that it is read as a document wherever documents are written: in front
of a comma or a closing bracket, or at the end. There is one lemma for each kind of document;
those of arrays and objects put together what is known of their parts.

A document that is written can be used if it is not nested too deeply. `Json.nesting` counts
the arrays and objects that are in each other, and `Json.Usable` says that they are all that
matters.
-/

set_option autoImplicit false

namespace ForumModeration

namespace Json

/-! ### Nesting -/

mutual

/-- The most arrays and objects that are in each other. -/
def nesting : Json → Nat
  | array items => nestingOf items + 1
  | object members => nestingOfMembers members + 1
  | _ => 0

/-- The deepest nesting of some documents. -/
def nestingOf : List Json → Nat
  | [] => 0
  | item :: rest => max (nesting item) (nestingOf rest)

/-- The deepest nesting of the documents that are members. -/
def nestingOfMembers : List (Option String × Json) → Nat
  | [] => 0
  | member :: rest => max (nesting member.2) (nestingOfMembers rest)

end

theorem nestingOf_eq_foldr (items : List Json) :
    nestingOf items = (items.map nesting).foldr max 0 :=
  eq_foldr_of_cons rfl fun _ _ => rfl

theorem nestingOfMembers_eq_foldr (members : List (Option String × Json)) :
    nestingOfMembers members = (members.map fun member => member.2.nesting).foldr max 0 :=
  eq_foldr_of_cons rfl fun _ _ => rfl

theorem foldr_max_le {α : Type} {items : List α} {nests : α → Nat} {depth : Nat} :
    (items.map nests).foldr max 0 ≤ depth ↔ ∀ item ∈ items, nests item ≤ depth := by
  induction items with
  | nil => simp
  | cons item items ih =>
    rw [List.map_cons, List.foldr_cons, Nat.max_le, ih, List.forall_mem_cons]

/-- A document can be used exactly where it is not nested too deeply. -/
def Usable (json : Json) : Prop :=
  ∀ depth, json.isSound depth = true ↔ json.nesting ≤ depth

theorem areSound_iff {items : List Json} {depth : Nat} (h : ∀ item ∈ items, item.Usable) :
    areSound depth items = true ↔ nestingOf items ≤ depth := by
  rw [nestingOf_eq_foldr, foldr_max_le]
  induction items with
  | nil => simp [areSound]
  | cons item items ih =>
    obtain ⟨first, others⟩ := List.forall_mem_cons.mp h
    rw [areSound, Bool.and_eq_true, first, ih others, List.forall_mem_cons]

theorem membersAreSound_iff {members : List (Option String × Json)} {depth : Nat}
    (h : ∀ member ∈ members, member.1.isSome = true ∧ member.2.Usable) :
    membersAreSound depth members = true ↔ nestingOfMembers members ≤ depth := by
  rw [nestingOfMembers_eq_foldr, foldr_max_le]
  induction members with
  | nil => simp [membersAreSound]
  | cons member members ih =>
    obtain ⟨⟨name, first⟩, others⟩ := List.forall_mem_cons.mp h
    rw [membersAreSound, name, Bool.true_and, Bool.and_eq_true, first, ih others,
      List.forall_mem_cons]

theorem usable_array {items : List Json} (h : ∀ item ∈ items, item.Usable) :
    (array items).Usable := by
  intro depth
  rw [isSound, nesting, Bool.and_eq_true, decide_eq_true_eq, areSound_iff h]
  omega

theorem usable_object {members : List (Option String × Json)}
    (h : ∀ member ∈ members, member.1.isSome = true ∧ member.2.Usable) :
    (object members).Usable := by
  intro depth
  rw [isSound, nesting, Bool.and_eq_true, decide_eq_true_eq, membersAreSound_iff h]
  omega

/-- What is neither an array nor an object can be used if its contents can. -/
theorem usable_of_isSound {json : Json} (flat : json.nesting = 0)
    (h : ∀ depth, json.isSound depth = true) : json.Usable := by
  intro depth
  rw [flat]
  exact ⟨fun _ => Nat.zero_le depth, fun _ => h depth⟩

namespace Document

open ForumModeration.Parser

variable {text rest : List Char} {inner : Parser Json}

/-! ### The kinds of documents -/

theorem word_declines {c : Char} {letters : List Char} (h : Ahead (· ≠ c) (skipBlanks text)) :
    (word (c :: letters)).Declines text := by
  have other : (c :: letters).isPrefixOf (skipBlanks text) = false := by
    cases start : skipBlanks text with
    | nil => rfl
    | cons d rest =>
      rw [start, ahead_cons] at h
      show (c == d && _) = false
      rw [beq_eq_false_iff_ne.mpr (Ne.symm h), Bool.false_and]
  refine ⟨⟨skipBlanks text, none, false⟩, ?_, rfl⟩
  show (if (c :: letters).isPrefixOf (skipBlanks text) = true then _ else _) = _
  rw [other]
  rfl

theorem word_of {letters : List Char} (h : Ahead (isBlank · = false) (letters ++ rest)) :
    word letters (letters ++ rest) = .ok ((), rest) := by
  have found : letters.isPrefixOf (letters ++ rest) = true :=
    List.isPrefixOf_iff_prefix.mpr (List.prefix_append _ _)
  show (if letters.isPrefixOf (skipBlanks (letters ++ rest)) = true then _ else _) = _
  rw [skipBlanks_eq_self h, if_pos found, List.drop_left]

theorem numeral_declines (h : Ahead (fun c => c.isDigit = false ∧ c ≠ '-') (skipBlanks text)) :
    numeral.Declines text := by
  have noSign := (char_declines (h.imp fun _ hc => hc.2)).optional
  have noDigits : wholeDigits.Declines (skipBlanks text) := by
    refine Declines.orElse (Declines.bind (char_declines (h.imp fun c hc => ?_)))
      (run_declines (h.imp fun _ hc => hc.1))
    rintro rfl
    cases hc.1
  exact Declines.after noSign (Declines.bind noDigits)

theorem string_declines (h : Ahead (· ≠ '"') (skipBlanks text)) : string.Declines text := by
  refine ⟨⟨skipBlanks text, none, false⟩, ?_, rfl⟩
  unfold string token
  cases start : skipBlanks text with
  | nil => rfl
  | cons c rest =>
    rw [start, ahead_cons] at h
    simp only
    split
    · rename_i same
      cases same
      exact absurd rfl h
    · rfl

theorem sign_declines {c : Char} (h : Ahead (· ≠ c) (skipBlanks text)) :
    (sign c).Declines text :=
  Declines.bind (f := fun _ => pure ()) (char_declines h)

theorem sign_of {c : Char} (h : isBlank c = false) : sign c (c :: rest) = .ok ((), rest) := by
  unfold sign token
  rw [skipBlanks_eq_self (ahead_cons.mpr h), bind_of_ok (char_eq_ok.mpr ⟨rfl, rfl⟩)]
  rfl

theorem between_declines {α : Type} {opening closing : Char} {item : Parser α}
    (h : Ahead (· ≠ opening) (skipBlanks text)) :
    (between opening closing item).Declines text :=
  Declines.bind (sign_declines h)

/-- No word starts with another letter. -/
theorem words_decline (h : Ahead (fun c => c ≠ 'n' ∧ c ≠ 't' ∧ c ≠ 'f') (skipBlanks text)) :
    (((do word "null".toList; return null : Parser Json).orElse
      (do word "true".toList; return bool true)).orElse
      (do word "false".toList; return bool false)).Declines text :=
  Declines.orElse
    (Declines.orElse (Declines.bind (word_declines (h.imp fun _ hc => hc.1)))
      (Declines.bind (word_declines (h.imp fun _ hc => hc.2.1))))
    (Declines.bind (word_declines (h.imp fun _ hc => hc.2.2)))

theorem documentWith_null : documentWith inner ("null".toList ++ rest) = .ok (null, rest) := by
  refine orElse_of_ok (orElse_of_ok (orElse_of_ok (orElse_of_ok (orElse_of_ok
    (orElse_of_ok ?_)))))
  exact bind_of_ok (word_of (ahead_cons.mpr rfl))

theorem documentWith_bool (truth : Bool) :
    documentWith inner (writeBool truth ++ rest) = .ok (bool truth, rest) := by
  have noBlank : skipBlanks (writeBool truth ++ rest) = writeBool truth ++ rest := by
    cases truth <;> exact skipBlanks_eq_self (ahead_cons.mpr rfl)
  refine orElse_of_ok (orElse_of_ok (orElse_of_ok (orElse_of_ok ?_)))
  cases truth with
  | true =>
    have noNull : (word "null".toList).Declines (writeBool true ++ rest) :=
      word_declines (by rw [noBlank]; exact ahead_cons.mpr (by decide))
    refine orElse_of_ok ?_
    rw [(Declines.bind noNull).orElse_eq]
    exact bind_of_ok (word_of (ahead_cons.mpr rfl))
  | false =>
    have noNull : (word "null".toList).Declines (writeBool false ++ rest) :=
      word_declines (by rw [noBlank]; exact ahead_cons.mpr (by decide))
    have noTrue : (word "true".toList).Declines (writeBool false ++ rest) :=
      word_declines (by rw [noBlank]; exact ahead_cons.mpr (by decide))
    rw [(Declines.orElse (Declines.bind noNull) (Declines.bind noTrue)).orElse_eq]
    exact bind_of_ok (word_of (ahead_cons.mpr rfl))

theorem documentWith_number {n : Numeral} (read : numeral text = .ok (n, rest)) :
    documentWith inner text = .ok (number n, rest) := by
  have start : Ahead (fun c => c ≠ 'n' ∧ c ≠ 't' ∧ c ≠ 'f') (skipBlanks text) := by
    -- Such a letter is no start of a number.
    intro c ahead
    by_contra letter
    have declines : numeral.Declines text := by
      refine numeral_declines fun d mem => ?_
      obtain rfl : c = d := Option.some.inj (ahead.symm.trans mem)
      have known : c = 'n' ∨ c = 't' ∨ c = 'f' := by
        by_contra other
        simp only [not_or] at other
        exact letter other
      rcases known with rfl | rfl | rfl <;> decide
    obtain ⟨failure, failed, -⟩ := declines
    rw [read] at failed
    cases failed
  refine orElse_of_ok (orElse_of_ok (orElse_of_ok ?_))
  rw [(words_decline start).orElse_eq, bind_of_ok read]
  rfl

theorem documentWith_string (contents : List Char) :
    documentWith inner (Quoted.encode contents ++ rest)
      = .ok (.string (some (String.ofList contents)), rest) := by
  have start : ∀ P : Char → Prop, P '"' →
      Ahead P (skipBlanks (Quoted.encode contents ++ rest)) := by
    intro P h
    have noBlank : skipBlanks (Quoted.encode contents ++ rest) = Quoted.encode contents ++ rest :=
      skipBlanks_eq_self (ahead_cons.mpr rfl)
    rw [noBlank]
    exact ahead_cons.mpr h
  refine orElse_of_ok (orElse_of_ok ?_)
  rw [(Declines.orElse (words_decline (start _ (by decide)))
    (Declines.bind (numeral_declines (start _ (by decide))))).orElse_eq,
    bind_of_ok (string_encode contents rest)]
  rfl

theorem documentWith_array {tail : List Char} {items : List Json}
    (read : between '[' ']' inner ('[' :: tail) = .ok (items, rest)) :
    documentWith inner ('[' :: tail) = .ok (array items, rest) := by
  have start : ∀ P : Char → Prop, P '[' → Ahead P (skipBlanks ('[' :: tail)) := fun P h => by
    rw [skipBlanks_eq_self (ahead_cons.mpr rfl)]
    exact ahead_cons.mpr h
  refine orElse_of_ok ?_
  rw [(Declines.orElse (Declines.orElse (words_decline (start _ (by decide)))
    (Declines.bind (numeral_declines (start _ (by decide)))))
    (Declines.bind (string_declines (start _ (by decide))))).orElse_eq, bind_of_ok read]
  rfl

theorem documentWith_object {tail : List Char} {members : List (Option String × Json)}
    (read : between '\x7b' '\x7d' (member inner) ('\x7b' :: tail) = .ok (members, rest)) :
    documentWith inner ('\x7b' :: tail) = .ok (object members, rest) := by
  have start : ∀ P : Char → Prop, P '\x7b' → Ahead P (skipBlanks ('\x7b' :: tail)) := fun P h => by
    rw [skipBlanks_eq_self (ahead_cons.mpr rfl)]
    exact ahead_cons.mpr h
  unfold documentWith
  rw [(Declines.orElse (Declines.orElse (Declines.orElse (words_decline (start _ (by decide)))
    (Declines.bind (numeral_declines (start _ (by decide)))))
    (Declines.bind (string_declines (start _ (by decide)))))
    (Declines.bind (between_declines (start _ (by decide))))).orElse_eq, bind_of_ok read]
  rfl

/-- A closing bracket is no document. -/
theorem documentWith_declines (h : Ahead (· = ']') (skipBlanks text)) :
    (documentWith inner).Declines text := by
  have not : ∀ P : Char → Prop, P ']' → Ahead P (skipBlanks text) := fun P closing =>
    h.imp fun c hc => by rw [hc]; exact closing
  unfold documentWith
  exact Declines.orElse (Declines.orElse (Declines.orElse (Declines.orElse
    (words_decline (not _ (by decide))) (Declines.bind (numeral_declines (not _ (by decide)))))
    (Declines.bind (string_declines (not _ (by decide)))))
    (Declines.bind (between_declines (not _ (by decide)))))
    (Declines.bind (between_declines (not _ (by decide))))

/-! ### Items and members -/

/-- A closing bracket ends what is written before it. -/
private theorem ends_closing {closing : Char} (h : closing = ']' ∨ closing = '\x7d') :
    Ends (closing :: rest) :=
  ahead_cons.mpr (.inr h)

/-- What follows an item: further items with commas in front of them, and the closing bracket. -/
private theorem ends_further {closing : Char} (h : closing = ']' ∨ closing = '\x7d')
    (texts : List (List Char)) : Ends (texts.flatMap (',' :: ·) ++ closing :: rest) := by
  cases texts with
  | nil => exact ends_closing h
  | cons text texts => exact ahead_cons.mpr (.inl rfl)

/-- Texts that a reader reads as items, where documents end. -/
def Each {α : Type} (item : Parser α) : List (List Char) → List α → Prop :=
  List.Forall₂ fun text a => ∀ {rest}, Ends rest → item (text ++ rest) = .ok (a, rest)

section

variable {α : Type} {item : Parser α} {opening closing : Char} {texts : List (List Char)}
  {items : List α}

/-- Further items are read up to the closing bracket. -/
theorem many_of_each (h : closing = ']' ∨ closing = '\x7d') (each : Each item texts items)
    (rest : List Char) :
    Parser.many (do sign ','; item) (texts.flatMap (',' :: ·) ++ closing :: rest)
      = .ok (items, closing :: rest) := by
  induction each with
  | nil =>
    have noComma : (sign ',').Declines (closing :: rest) := by
      refine sign_declines ?_
      rcases h with rfl | rfl
      · rw [skipBlanks_eq_self (ahead_cons.mpr rfl), ahead_cons]
        decide
      · rw [skipBlanks_eq_self (ahead_cons.mpr rfl), ahead_cons]
        decide
    obtain ⟨failure, failed, soft⟩ := Declines.bind (f := fun _ => item) noComma
    exact many_of_error failed soft
  | @cons text a texts items one _ ih =>
    have read : (do sign ','; item)
        (',' :: (text ++ (texts.flatMap (',' :: ·) ++ closing :: rest)))
          = .ok (a, texts.flatMap (',' :: ·) ++ closing :: rest) := by
      rw [bind_of_ok (sign_of rfl)]
      exact one (ends_further h texts)
    rw [List.flatMap_cons, List.cons_append, List.cons_append, List.append_assoc]
    refine many_of_ok read ?_ ih
    simp only [List.length_cons, List.length_append]
    omega

/-- Texts with commas between them. -/
private theorem intercalate_cons (text : List Char) (texts : List (List Char)) :
    [','].intercalate (text :: texts) = text ++ texts.flatMap (',' :: ·) := by
  induction texts generalizing text with
  | nil => simp [List.intercalate]
  | cons next texts ih =>
    rw [List.intercalate_cons_cons, ih, List.flatMap_cons, List.append_assoc]
    rfl

private theorem length_le_intercalate {text : List Char} {texts : List (List Char)}
    (mem : text ∈ texts) : text.length ≤ ([','].intercalate texts).length := by
  cases texts with
  | nil => cases mem
  | cons first texts =>
    rw [intercalate_cons, List.length_append]
    rcases List.mem_cons.mp mem with rfl | mem
    · exact Nat.le_add_right _ _
    · have := (List.sublist_flatten_of_mem (List.mem_map_of_mem (f := (',' :: ·)) mem)).length_le
      rw [← List.flatMap_def, List.length_cons] at this
      omega

/-- Items between brackets are read. -/
theorem between_of_each (noBlank : isBlank opening = false)
    (h : closing = ']' ∨ closing = '\x7d') (none : item.Declines (closing :: rest))
    (each : Each item texts items) :
    between opening closing item (opening :: [','].intercalate texts ++ closing :: rest)
      = .ok (items, rest) := by
  have closed : isBlank closing = false := by rcases h with rfl | rfl <;> rfl
  have all : item.separatedOrNone (sign ',') ([','].intercalate texts ++ closing :: rest)
      = .ok (items, closing :: rest) := by
    unfold Parser.separatedOrNone
    cases each with
    | nil => exact bind_of_ok none.optional
    | @cons text a texts items first others =>
      rw [intercalate_cons, List.append_assoc,
        bind_of_ok (optional_of_ok (first (ends_further h texts)))]
      exact bind_of_ok (many_of_each h others rest)
  unfold between
  rw [List.cons_append, bind_of_ok (sign_of noBlank), bind_of_ok all, bind_of_ok (sign_of closed)]
  rfl

end

/-- A text is read as a document wherever documents are written, and the document can be used
where it is not nested too deeply. -/
structure Written (text : List Char) (json : Json) : Prop where
  reads : ∀ {depth : Nat} {rest : List Char}, text.length ≤ depth → Ends rest →
    document depth (text ++ rest) = .ok (json, rest)
  usable : json.Usable

/-- What is read without reading documents inside it. -/
private theorem written_of_documentWith {json : Json} (nonempty : text ≠ [])
    (reads : ∀ {inner rest}, Ends rest → documentWith inner (text ++ rest) = .ok (json, rest))
    (usable : json.Usable) : Written text json where
  reads := by
    intro depth rest enough ends
    cases depth with
    | zero => exact absurd (List.eq_nil_of_length_eq_zero (Nat.le_zero.mp enough)) nonempty
    | succ depth => exact reads ends
  usable := usable

theorem written_null : Written "null".toList null :=
  written_of_documentWith (by decide) (fun _ => documentWith_null)
    (usable_of_isSound rfl fun _ => rfl)

theorem written_bool (truth : Bool) : Written (writeBool truth) (bool truth) :=
  written_of_documentWith (by cases truth <;> decide) (fun _ => documentWith_bool truth)
    (usable_of_isSound rfl fun _ => rfl)

theorem written_number {n : Numeral}
    (reads : ∀ {rest}, Ends rest → numeral (text ++ rest) = .ok (n, rest))
    (inRange : n.isInRange = true) : Written text (number n) := by
  refine written_of_documentWith ?_ (fun ends => documentWith_number (reads ends))
    (usable_of_isSound rfl fun _ => inRange)
  rintro rfl
  obtain ⟨failure, failed, -⟩ := @numeral_declines [] (ahead_nil _)
  have read := @reads [] (ahead_nil _)
  rw [List.append_nil, failed] at read
  cases read

theorem written_quoted (contents : List Char) :
    Written (Quoted.encode contents) (.string (some (String.ofList contents))) :=
  written_of_documentWith (List.cons_ne_nil _ _) (fun _ => documentWith_string contents)
    (usable_of_isSound rfl fun _ => rfl)

theorem written_string (text : String) : Written (writeString text) (.string (some text)) := by
  have written := written_quoted text.toList
  rwa [String.ofList_toList] at written

/-- A document needs no more levels than its text has characters. -/
private theorem each_of_written {texts : List (List Char)} {items : List Json} {depth : Nat}
    (each : List.Forall₂ Written texts items) (short : ∀ text ∈ texts, text.length ≤ depth) :
    Each (document depth) texts items := by
  induction each with
  | nil => exact .nil
  | cons one _ ih =>
    obtain ⟨first, others⟩ := List.forall_mem_cons.mp short
    exact .cons (one.reads first) (ih others)

/-- An array of items that are written is written. -/
theorem written_array {texts : List (List Char)} {items : List Json}
    (each : List.Forall₂ Written texts items) : Written (writeArray texts) (array items) where
  reads := by
    intro depth rest enough ends
    cases depth with
    | zero => cases enough
    | succ depth =>
      have short : ∀ text ∈ texts, text.length ≤ depth := by
        intro text mem
        have := length_le_intercalate mem
        simp only [writeArray, List.cons_append, List.length_cons, List.length_append] at enough
        omega
      have none : (document depth).Declines (']' :: rest) := by
        cases depth with
        | zero => exact ⟨_, rfl, rfl⟩
        | succ depth => exact documentWith_declines (ahead_cons.mpr rfl)
      have read := between_of_each (show isBlank '[' = false from rfl) (.inl rfl) none
        (each_of_written each short)
      unfold writeArray
      rw [List.append_assoc]
      exact documentWith_array read
  usable := by
    refine usable_array ?_
    induction each with
    | nil => exact List.forall_mem_nil _
    | cons one _ ih => exact List.forall_mem_cons.mpr ⟨one.usable, ih⟩

/-- The members of an object, by their names and documents. -/
def named (members : List (String × List Char)) (documents : List Json) :
    List (Option String × Json) :=
  List.zipWith (fun member json => (some member.1, json)) members documents

/-- A member is read with its name. -/
private theorem each_of_members {members : List (String × List Char)} {documents : List Json}
    {depth : Nat} (each : List.Forall₂ (fun member json => Written member.2 json) members documents)
    (short : ∀ entry ∈ members, entry.2.length ≤ depth) :
    Each (member (document depth))
      (members.map fun entry => Quoted.encode entry.1.toList ++ ':' :: entry.2)
      (named members documents) := by
  induction each with
  | nil => exact .nil
  | @cons entry json _ _ one _ ih =>
    obtain ⟨first, others⟩ := List.forall_mem_cons.mp short
    refine .cons (fun {rest} ends => ?_) (ih others)
    unfold member
    rw [List.append_assoc, List.cons_append, bind_of_ok (string_encode _ _),
      bind_of_ok (sign_of rfl), bind_of_ok (one.reads first ends), String.ofList_toList]
    rfl

/-- An object with members that are written is written. -/
theorem written_object {members : List (String × List Char)} {documents : List Json}
    (each : List.Forall₂ (fun member json => Written member.2 json) members documents) :
    Written (writeObject members) (object (named members documents)) where
  reads := by
    intro depth rest enough ends
    cases depth with
    | zero => cases enough
    | succ depth =>
      have short : ∀ entry ∈ members, entry.2.length ≤ depth := by
        intro entry mem
        have := length_le_intercalate (List.mem_map_of_mem
          (f := fun entry : String × List Char => Quoted.encode entry.1.toList ++ ':' :: entry.2)
          mem)
        simp only [List.length_append, List.length_cons] at this
        simp only [writeObject, List.cons_append, List.length_cons, List.length_append] at enough
        omega
      have none : (member (document depth)).Declines ('\x7d' :: rest) :=
        Declines.bind (string_declines (ahead_cons.mpr (by decide)))
      have read := between_of_each (show isBlank '\x7b' = false from rfl) (.inr rfl) none
        (each_of_members each short)
      unfold writeObject
      rw [List.append_assoc]
      exact documentWith_object read
  usable := by
    refine usable_object ?_
    induction each with
    | nil => exact List.forall_mem_nil _
    | cons one _ ih => exact List.forall_mem_cons.mpr ⟨⟨rfl, one.usable⟩, ih⟩

/-- A text that is written as a document is read as the document. -/
theorem ofText?_of_written {json : Json} (written : Written text json) :
    ofText? (String.ofList text) = some json ∧ read? text = some (json, []) := by
  have read := @written.reads (text.length + 1) [] (Nat.le_succ _) (ahead_nil _)
  rw [List.append_nil] at read
  have found : read? text = some (json, []) := by
    unfold read?
    rw [read]
    rfl
  refine ⟨?_, found⟩
  unfold ofText?
  rw [String.toList_ofList, found]
  rfl

end Document

end Json

end ForumModeration
