import DocumentTable.Proofs.Fields
import DocumentTable.Proofs.SourceReading
import DocumentTable.Service.Reply
import Mathlib.Data.List.TakeWhile

/-!
# Errors in replies

The body of an error response is an object with the type of the error and perhaps a message. Other
members may stand around these two. The error has the part of the type behind its last `#`, and the
code of that name. But the message has two names, and a body with both of them cannot be read.

## Main definitions

* `ErrorBody.valuesOf`: the values of the members with one of some names
* `ErrorBody.field?`: the text of a field that must not be repeated
* `ServiceError.ClassifiedBy`: an error has the status, the type and the code of a response
* `Reply.ofObject`: a response whose body is an object between blanks

## Main results

* `ErrorBody.toOption_parseBytes`: an error body is read as the texts of its two fields
* `shortType_spec`: the short type is what stands behind the last separator
* `Reply.error_of_object`: when a response whose body has one type carries an error of that type
* `Reply.not_forall_classifiedBy`: with both names of the message the type is lost

## Design notes

The members of a body are read one after the other into two places, one for the type and one for the
message. Either place is filled by the members of its own names alone, so that what is read from a
body does not depend on the order of its members.
-/

namespace DocumentTable

/-! ### The body of an error response -/

namespace ErrorBody

open Json (Source Blanks Member ignoresBlanks_read_nullable)

/-- The fields of an error body. -/
def fields : Fields (Option String × Option String × Unit)
    (Option (Option String) × Option (Option String) × Unit) :=
  .cons (.optional "__type" .text) <|
    .cons { Field.optional "Message" .text with aliases := ["message"] } .nil

theorem codec_eq : codec =
    .record "ErrorBody" fields (fun b => (b.type, b.message, ()))
      (fun (type, message, _) => ⟨type, message⟩) :=
  rfl

/-- Reads a value into an empty place. A place is filled once only. -/
def fill (place : Option (Option String)) (value : Source) : Option (Option (Option String)) :=
  if place.isSome then none else value.nullableText?.map some

theorem fill_none (value : Source) : fill none value = value.nullableText?.map some :=
  rfl

/-- What a member makes of the places for the type and the message. -/
def take (places : Option (Option String) × Option (Option String) × Unit) (key : String)
    (value : Source) : Option (Option (Option String) × Option (Option String) × Unit) :=
  if key = "__type" then (fill places.1 value).map fun type => (type, places.2)
  else if key = "Message" ∨ key = "message" then
    (fill places.2.1 value).map fun message => (places.1, message, ())
  else some places

/-- A field with a text that may be null is read from its member, once only. A second member of its
name is refused, also if both have the same value. -/
theorem yields_optional {ρ : Type} (place : Option (Option String)) (others : ρ) (name : String)
    (depth : Nat) (afterName before : Blanks) (value : Source) (rest : List UInt8) :
    Reader.Yields (do
      if place.isSome then throw (.duplicateField name)
      Reader.colon
      return (some (← Codec.text.nullable.read depth), others))
      (afterName.bytes ++ 0x3A :: (before.bytes ++ (value.bytes ++ rest)))
      ((fill place value).map fun place => (place, others)) rest := by
  cases place with
  | some text => exact Reader.yields_throw _ _ _
  | none =>
      have read : (Codec.text.nullable.read depth).Yields
          (before.bytes ++ (value.bytes ++ rest)) value.nullableText? rest :=
        (ignoresBlanks_read_nullable Codec.text depth).yields.2
          (value.yields_nullable_text depth rest)
      have filled := read.map fun text => (some text, others)
      rw [fill_none, Option.map_map]
      exact (Json.reads_colon_between afterName _).bind filled

theorem readsMember (depth : Nat) : Json.ReadsMember (Codec.readMember fields depth) take := by
  intro places key afterName before value rest ends
  obtain ⟨type, message, _⟩ := places
  by_cases isType : key = "__type"
  · subst isType
    rw [take, if_pos rfl]
    exact yields_optional type _ _ depth afterName before value rest
  · by_cases isMessage : key = "Message" ∨ key = "message"
    · have filled := yields_optional message () "Message" depth afterName before value rest
      have whole := filled.map fun others => (type, others)
      rw [Option.map_map] at whole
      rw [take, if_neg isType, if_pos isMessage]
      rcases isMessage with rfl | rfl
      · exact whole
      · exact whole
    · rw [not_or] at isMessage
      have other : fields.readKey depth key (type, message, ()) = none := by
        refine Fields.readKey_eq_none ?_ ?_ depth _
        · simp [fields, Fields.keys, Field.optional, isType, isMessage.1]
        · simp [fields, Fields.aliases, Field.optional, isMessage.2]
      have skips := value.reads_skipValue before ends
      rw [take, if_neg isType, if_neg (by simp [isMessage]), Codec.readMember, other]
      exact (Json.reads_colon_between afterName _).bind (skips.bind (Reader.yields_pure _ _))

/-- The text of a field whose members have some values. It may be absent, but is not repeated. -/
def field? : List Source → Option (Option String)
  | [] => some none
  | [value] => value.nullableText?
  | _ => none

/-- The values of the members with one of some names, in the order in which they stand. -/
def valuesOf (names : List String) (members : List (Member Source)) : List Source :=
  (members.filter fun m => m.name.text?.any (· ∈ names)).map fun m => m.item.value

section ValuesOf

variable {names : List String} {m : Member Source} {key : String}

theorem valuesOf_cons_of_mem (text : m.name.text? = some key) (mem : key ∈ names)
    (members : List (Member Source)) :
    valuesOf names (m :: members) = m.item.value :: valuesOf names members := by
  rw [valuesOf, List.filter_cons_of_pos (by simp [text, mem]), List.map_cons, valuesOf]

theorem valuesOf_cons_of_not_mem (text : m.name.text? = some key) (notMem : key ∉ names)
    (members : List (Member Source)) :
    valuesOf names (m :: members) = valuesOf names members := by
  rw [valuesOf, List.filter_cons_of_neg (by simp [text, notMem]), valuesOf]

/-- Among members without blanks whose names stand for themselves, those with some names. -/
theorem valuesOf_plain (names : List String) {members : List (String × Source)}
    (all : ∀ m ∈ members, ∀ b ∈ bytesOf m.1, Json.IsPlain b) :
    valuesOf names (members.map fun m => .plain m.1 m.2) =
      (members.filter fun m => m.1 ∈ names).map Prod.snd := by
  induction members with
  | nil => rfl
  | cons m members ih =>
      rw [List.forall_mem_cons] at all
      have text := Member.text?_plain all.1 m.2
      rw [List.map_cons]
      by_cases mem : m.1 ∈ names
      · rw [valuesOf_cons_of_mem text mem, ih all.2,
          List.filter_cons_of_pos (by simpa using mem), List.map_cons]
        rfl
      · rw [valuesOf_cons_of_not_mem text mem, ih all.2,
          List.filter_cons_of_neg (by simpa using mem)]

end ValuesOf

/-- The place that the values of one field fill, if they fill it once at most. -/
theorem getD_foldlM_fill (values : List Source) :
    (values.foldlM fill none).map (·.getD none) = field? values := by
  match values with
  | [] => rfl
  | [value] =>
      rw [List.foldlM_cons, fill_none, field?]
      cases value.nullableText? with
      | none => rfl
      | some text => rfl
  | value :: other :: values =>
      show _ = none
      rw [List.foldlM_cons, fill_none]
      cases value.nullableText? with
      | none => rfl
      | some text => rfl

/-- The members fill the places for the type and the message apart from one another. A name that
stands for no text makes the whole body unreadable. -/
theorem foldMembers_take (members : List (Member Source)) (type message : Option (Option String)) :
    Json.foldMembers take members (type, message, ()) =
      if ∀ m ∈ members, m.name.text?.isSome then
        ((valuesOf ["__type"] members).foldlM fill type).bind fun type =>
          ((valuesOf ["Message", "message"] members).foldlM fill message).map fun message =>
            (type, message, ())
      else none := by
  induction members generalizing type message with
  | nil => rw [if_pos (by simp)]; rfl
  | cons m members ih =>
      rw [Json.foldMembers, List.foldlM_cons]
      cases text : m.name.text? with
      | none => rw [if_neg (by simp [text])]; rfl
      | some key =>
          show (take _ key m.item.value).bind (Json.foldMembers take members) = _
          simp only [List.forall_mem_cons, text, Option.isSome_some, true_and]
          -- a member fills one of the two places or none, and a place can be filled once
          by_cases isType : key = "__type"
          · rw [valuesOf_cons_of_mem text (by simp [isType]),
              valuesOf_cons_of_not_mem text (by simp [isType]), take, if_pos isType,
              List.foldlM_cons]
            cases fill type m.item.value with
            | none => split <;> rfl
            | some place => exact ih place message
          · by_cases isMessage : key = "Message" ∨ key = "message"
            · rw [valuesOf_cons_of_not_mem text (by simp [isType]),
                valuesOf_cons_of_mem text (by simpa using isMessage), take, if_neg isType,
                if_pos isMessage, List.foldlM_cons]
              cases fill message m.item.value with
              | none =>
                  cases (valuesOf ["__type"] members).foldlM fill type with
                  | none => split <;> rfl
                  | some place => split <;> rfl
              | some place => exact ih type place
            · rw [valuesOf_cons_of_not_mem text (by simp [isType]),
                valuesOf_cons_of_not_mem text (by simpa using isMessage), take, if_neg isType,
                if_neg isMessage]
              exact ih type message

theorem finish_eq (type message : Option (Option String)) :
    fields.finish (type, message, ()) = .ok (type.getD none, message.getD none, ()) := by
  cases type <;> cases message <;> rfl

/-- What is read from an error body, which is an object between blanks. Members that belong to no
field may hold anything that is a source. -/
theorem toOption_parseBytes (before gap after : Blanks) (members : List (Member Source)) :
    (codec.parseBytes
      (before.bytes ++ ((Source.object gap members).bytes ++ after.bytes))).toOption =
      if ∀ m ∈ members, m.name.text?.isSome then
        (field? (valuesOf ["__type"] members)).bind fun type =>
          (field? (valuesOf ["Message", "message"] members)).map fun message => ⟨type, message⟩
      else none := by
  have start : fields.noSlots = (none, none, ()) := rfl
  have read := (Codec.yields_readFields (readsMember 126) "ErrorBody" before gap members
    after.bytes).map fun values => ErrorBody.mk values.1 values.2.1
  rw [start, foldMembers_take] at read
  have whole := read.run (List.dropWhile_eq_nil_iff.2 after.all)
  have limit : Json.depthLimit = 126 + 1 := rfl
  rw [codec_eq, Codec.parseBytes, limit]
  refine Eq.trans whole ?_
  rw [← getD_foldlM_fill, ← getD_foldlM_fill]
  split
  · cases (valuesOf ["__type"] members).foldlM fill none with
    | none => rfl
    | some type =>
        cases (valuesOf ["Message", "message"] members).foldlM fill none with
        | none => rfl
        | some message =>
            simp only [Option.map_some, Option.bind_some, finish_eq]
            rfl
  · rfl

end ErrorBody

/-! ### Types of errors -/

/-- The short type is what stands behind the last separator, if there is one, and otherwise the
whole type. -/
theorem shortType_spec (type : String) :
    '#' ∉ (shortType type).toList ∧
      (shortType type = type ∨ ∃ space, type = space ++ "#" ++ shortType type) := by
  obtain ⟨first, rest, text, absent, others⟩ := exists_pieces '#' type.toList
  have pieces : splitAll ['#'] type.toList = first :: rest := by
    rw [text]
    exact splitAll_pieces (List.mem_singleton_self '#') absent others
  rw [shortType, pieces, String.toList_ofList]
  rcases List.eq_nil_or_concat rest with rfl | ⟨front, last, rfl⟩
  · refine ⟨absent, .inl ?_⟩
    rw [List.flatMap_nil, List.append_nil] at text
    show String.ofList first = type
    rw [← text, String.ofList_toList]
  · have last? : (first :: front.concat last).getLast?.getD [] = last := by
      rw [List.concat_eq_append, ← List.cons_append, List.getLast?_concat]
      rfl
    rw [last?]
    refine ⟨others last (by simp), .inr ⟨String.ofList (first ++ front.flatMap (['#'] ++ ·)), ?_⟩⟩
    have separator : "#" = String.ofList ['#'] := rfl
    rw [separator, ← String.ofList_append, ← String.ofList_append,
      ← String.ofList_toList (s := type), text, List.concat_eq_append, List.flatMap_append,
      List.flatMap_singleton]
    simp only [List.append_assoc]

/-- The code of a name is the known code with that name, or unknown when there is none. -/
theorem ErrorCode.ofName_spec (name : String) :
    ofName name ∈ known ∧ (ofName name).name = name ∨
      ofName name = unknown ∧ ∀ code ∈ known, code.name ≠ name := by
  rw [ofName]
  cases found : known.find? fun code => code.name = name with
  | none =>
      refine .inr ⟨rfl, fun code mem same => ?_⟩
      have differs := List.find?_eq_none.1 found code mem
      exact differs (decide_eq_true same)
  | some code =>
      have same := List.find?_some found
      exact .inl ⟨List.mem_of_find?_eq_some found, of_decide_eq_true same⟩

theorem ErrorCode.ofName_name {code : ErrorCode} (isKnown : code ∈ known) :
    ofName code.name = code := by
  have all : ∀ code ∈ known, ofName code.name = code := by decide +kernel
  exact all code isKnown

namespace ServiceError

/-- An error is classified by the type that a response writes: it has the status of the response,
the part of the type behind its namespace, and the code of that name. -/
structure ClassifiedBy (type : String) (status : Nat) (e : ServiceError) : Prop where
  status : e.status = some status
  short : '#' ∉ e.type.toList
  behind : e.type = type ∨ ∃ space, type = space ++ "#" ++ e.type
  code : e.code ∈ ErrorCode.known ∧ e.code.name = e.type ∨
    e.code = .unknown ∧ ∀ code ∈ ErrorCode.known, code.name ≠ e.type
  conditional : e.isConditional = true ↔ e.type = "ConditionalCheckFailedException"

theorem classifiedBy_ofType (type message : String) (status : Nat) :
    ((ofType type message).withStatus status).ClassifiedBy type status := by
  have short : ((ofType type message).withStatus status).type = shortType type := by
    rw [withStatus, ofType]
  have code : ((ofType type message).withStatus status).code = .ofName (shortType type) := by
    rw [withStatus, ofType]
  have name := ErrorCode.ofName_spec (shortType type)
  refine ⟨rfl, ?_, ?_, ?_, ?_⟩
  · rw [short]
    exact (shortType_spec type).1
  · rw [short]
    exact (shortType_spec type).2
  · rwa [code, short]
  · rw [isConditional, decide_eq_true_eq, code, short]
    constructor
    · intro same
      rw [same] at name
      rcases name with ⟨-, name⟩ | ⟨isUnknown, -⟩
      · exact name.symm
      · cases isUnknown
    · intro same
      have known : shortType type = ErrorCode.conditionalCheckFailed.name := same
      rw [known]
      exact ErrorCode.ofName_name (by decide)

end ServiceError

namespace Reply

open Json (Source Blanks Member Literal)
open ErrorBody (field? valuesOf valuesOf_plain)

/-- A response whose body is an object between blanks. -/
def ofObject (status : Nat) (before gap after : Blanks) (members : List (Member Source)) : Reply :=
  ⟨status, before.bytes ++ ((Source.object gap members).bytes ++ after.bytes)⟩

/-- The error of a response whose body is read with a type. Without a message the text of the body
is the message. -/
theorem error_of_type {reply : Reply} {type : String} {message : Option String}
    (body : (ErrorBody.codec.parseBytes reply.body).toOption = some ⟨some type, message⟩) :
    reply.error =
      (ServiceError.ofType type (message.getD (lossyText reply.body))).withStatus reply.status := by
  rw [error, body]
  rfl

/-- The error of a response whose body cannot be read. The type that it may have is not looked for.
-/
theorem error_of_unread {reply : Reply}
    (body : (ErrorBody.codec.parseBytes reply.body).toOption = none) :
    reply.error = (ServiceError.ofCode .internalServer
      ("HTTP " ++ describeStatus reply.status ++ ": " ++ lossyText reply.body)).withStatus
        reply.status := by
  rw [error, body]
  rfl

/-- A response whose body has one type carries an error of this type, when all names are texts and
the message, under either of its names, is null or a text and is not repeated. All other members
make no difference. Otherwise the type is lost, and the body is the message of an internal error.
The body may be any source of an object, with blanks between its parts, and its members are told
apart by what their names stand for. -/
theorem error_of_object (status : Nat) (before gap after : Blanks) (members : List (Member Source))
    {literal : Literal} {type : String} (one : valuesOf ["__type"] members = [.string literal])
    (text : literal.text? = some type) :
    let reply := ofObject status before gap after members
    let message? := field? (valuesOf ["Message", "message"] members)
    (∀ message, (∀ m ∈ members, m.name.text?.isSome) → message? = some message →
      reply.error.ClassifiedBy type status ∧
        reply.error.message = message.getD (lossyText reply.body)) ∧
    (¬((∀ m ∈ members, m.name.text?.isSome) ∧ message?.isSome) →
      reply.error = (ServiceError.ofCode .internalServer
        ("HTTP " ++ describeStatus status ++ ": " ++ lossyText reply.body)).withStatus status) := by
  intro reply message?
  have written : field? (valuesOf ["__type"] members) = some (some type) := by
    rw [one]
    show literal.text?.map some = _
    rw [text, Option.map_some]
  -- the body is read as a whole or not at all
  have read : (ErrorBody.codec.parseBytes reply.body).toOption =
      if ∀ m ∈ members, m.name.text?.isSome then message?.map (⟨some type, ·⟩) else none := by
    have read := ErrorBody.toOption_parseBytes before gap after members
    rwa [written, Option.bind_some] at read
  constructor
  · intro message names unique
    rw [if_pos names, unique, Option.map_some] at read
    have error := error_of_type read
    rw [error]
    exact ⟨ServiceError.classifiedBy_ofType type _ status, rfl⟩
  · intro unreadable
    refine error_of_unread (read.trans ?_)
    split
    · next names =>
        rw [not_and, Option.not_isSome_iff_eq_none] at unreadable
        rw [unreadable names, Option.map_none]
    · rfl

/-- A response whose body has no blanks and names that stand for themselves. -/
def ofMembers (status : Nat) (members : List (String × Source)) : Reply :=
  ofObject status ∅ ∅ ∅ (members.map fun m => .plain m.1 m.2)

/-- A body with a number beyond the largest one, a repeated name and a null message has the type of
a condition that did not hold. With a second message the type is lost. -/
theorem error_of_object_condition :
    let literal := Literal.ofPlain (bytesOf "service#ConditionalCheckFailedException")
    let huge : Source := .number ⟨true, [0x31], ⟨List.all_eq_true.1 rfl, by decide, by decide⟩,
      none, some ⟨true, none, ⟨[0x34, 0x30, 0x30], List.all_eq_true.1 rfl, by decide⟩⟩⟩
    let one := [("id", huge), ("__type", .string literal), ("Message", .null), ("id", .bool true)]
    let two := [("__type", .string literal), ("Message", .null), ("message", .plain "late")]
    literal.text? = some "service#ConditionalCheckFailedException" ∧
      (ofMembers 400 one).error.ClassifiedBy "service#ConditionalCheckFailedException" 400 ∧
      (ofMembers 400 one).error.isConditional = true ∧
      (ofMembers 400 two).error.code = .internalServer := by
  intro literal huge one two
  have text : literal.text? = some "service#ConditionalCheckFailedException" :=
    Literal.text?_ofPlain (by decide +kernel)
  have plainOne : ∀ m ∈ one, ∀ b ∈ bytesOf m.1, Json.IsPlain b := by decide +kernel
  have plainTwo : ∀ m ∈ two, ∀ b ∈ bytesOf m.1, Json.IsPlain b := by decide +kernel
  have names : ∀ m ∈ one.map fun m => Member.plain m.1 m.2, m.name.text?.isSome :=
    List.forall_mem_map.2 fun m mem => by rw [Member.text?_plain (plainOne m mem)]; rfl
  have classified := (error_of_object 400 ∅ ∅ ∅ _ (valuesOf_plain _ plainOne) text).1 none names
    (congrArg field? (valuesOf_plain _ plainOne))
  have lost := (error_of_object 400 ∅ ∅ ∅ _ (valuesOf_plain _ plainTwo) text).2 <| by
    rw [valuesOf_plain _ plainTwo]
    exact fun readable => absurd readable.2 Bool.false_ne_true
  refine ⟨text, classified.1, ?_, ?_⟩
  · decide +kernel
  · exact congrArg ServiceError.code lost

/-- Not every response whose body has one type carries an error of that type: the body may have the
message under both of its names. -/
theorem not_forall_classifiedBy :
    ¬∀ (status : Nat) (before gap after : Blanks) (members : List (Member Source))
        (literal : Literal) (type : String),
      valuesOf ["__type"] members = [.string literal] → literal.text? = some type →
        (ofObject status before gap after members).error.ClassifiedBy type status := by
  intro all
  let literal := Literal.ofPlain (bytesOf "ConditionalCheckFailedException")
  let message : Source := .plain "The conditional request failed"
  let members := [("__type", .string literal), ("Message", message), ("message", message)]
  have plain : ∀ m ∈ members, ∀ b ∈ bytesOf m.1, Json.IsPlain b := by decide +kernel
  have text : literal.text? = some "ConditionalCheckFailedException" :=
    Literal.text?_ofPlain (by decide +kernel)
  have classified := all 400 ∅ ∅ ∅ _ literal _ (valuesOf_plain _ plain) text
  have lost : (ofMembers 400 members).error.type = "InternalServerError" := by decide +kernel
  rw [ofMembers] at lost
  rcases classified.behind with same | ⟨space, same⟩
  · rw [lost] at same
    exact absurd same (by decide)
  · have mem : '#' ∈ "ConditionalCheckFailedException".toList := by
      rw [same, String.toList_append, String.toList_append]
      exact List.mem_append_left _ (List.mem_append_right _ (by decide))
    exact absurd mem (by decide)

end Reply

end DocumentTable
