import DocumentTable.Proofs.Spelling
import DocumentTable.Wire.Catalogue

/-!
# What travels is read as it was written

Every wire type reads the text of each document that a value may be written as, and a value may be
written as the document that its codec gives it. For each record this rests on what the fields leave
out: the absence of a field has to stand for every value that the field is left out with.

## Main results

* `Operation.requestCodec_spelled`, `Operation.responseCodec_spelled`: the bodies of all operations
  may be written as the documents that their codecs give them
* `WireType.survives`: the values of all wire types survive being written and read
-/

namespace DocumentTable

open Codec (Spelled)
open Field.Spelled (required optional optionalTail listOrNothing dictOrNothing withDefault)

/-- An item is spelled as an object of attributes, whose keys are data and not names of fields. -/
theorem Item.codec_spelled : Item.codec.Spelled :=
  .dict .tagged

/-! ### Named alternatives -/

/-- The two roles of a key attribute have two different names, which is all that a choice has to
satisfy. -/
theorem KeyRole.codec_spelled : KeyRole.codec.Spelled :=
  .choice fun value => by cases value <;> rfl

theorem ScalarType.codec_spelled : ScalarType.codec.Spelled :=
  .choice fun value => by cases value <;> rfl

theorem BillingMode.codec_spelled : BillingMode.codec.Spelled :=
  .choice fun value => by cases value <;> rfl

theorem ProjectionType.codec_spelled : ProjectionType.codec.Spelled :=
  .choice fun value => by cases value <;> rfl

theorem ReturnValue.codec_spelled : ReturnValue.codec.Spelled :=
  .choice fun value => by cases value <;> rfl

/-! ### Layouts -/

theorem KeyElement.codec_spelled : KeyElement.codec.Spelled :=
  .record ⟨required .text, required KeyRole.codec_spelled, trivial⟩ (by decide) rfl fun _ => rfl

theorem AttributeDefinition.codec_spelled : AttributeDefinition.codec.Spelled :=
  .record ⟨required .text, required ScalarType.codec_spelled, trivial⟩ (by decide) rfl fun _ => rfl

theorem Throughput.codec_spelled : Throughput.codec.Spelled :=
  .record ⟨required .int64, required .int64, trivial⟩ (by decide) rfl fun _ => rfl

/-- A projection may leave out its kind and, when nothing is listed, the list of further attributes.
-/
theorem Projection.codec_spelled : Projection.codec.Spelled :=
  .record ⟨optional ProjectionType.codec_spelled, listOrNothing .text, trivial⟩ (by decide) rfl
    fun _ => rfl

/-- A global index may come without a throughput. Its other fields have to be there. -/
theorem GlobalIndex.codec_spelled : GlobalIndex.codec.Spelled :=
  .record
    ⟨required .text, required (.list KeyElement.codec_spelled), required Projection.codec_spelled,
      optional Throughput.codec_spelled, trivial⟩
    (by decide) rfl fun _ => rfl

theorem LocalIndex.codec_spelled : LocalIndex.codec.Spelled :=
  .record
    ⟨required .text, required (.list KeyElement.codec_spelled), required Projection.codec_spelled,
      trivial⟩
    (by decide) rfl fun _ => rfl

/-- A description may leave out each of its fields, since a service is free to tell little about a
table. -/
theorem TableDescription.codec_spelled : TableDescription.codec.Spelled :=
  .record
    ⟨optional .text, optional .text, listOrNothing KeyElement.codec_spelled, optional .int64,
      trivial⟩
    (by decide) rfl fun _ => rfl

/-! ### Entries of batches and transactions -/

/-- The keys to read come as a list of items. A projection is left out with its names. -/
theorem KeysRead.codec_spelled : KeysRead.codec.Spelled :=
  .record
    ⟨required (.list Item.codec_spelled), optional .text, dictOrNothing .text, optional .flag,
      trivial⟩
    (by decide) rfl fun _ => rfl

theorem PutEntry.codec_spelled : PutEntry.codec.Spelled :=
  .record ⟨required Item.codec_spelled, trivial⟩ (by decide) rfl fun _ => rfl

theorem DeleteEntry.codec_spelled : DeleteEntry.codec.Spelled :=
  .record ⟨required Item.codec_spelled, trivial⟩ (by decide) rfl fun _ => rfl

/-- An entry of a batch has a put or a delete, each of them left out when it is absent. -/
theorem WriteEntry.codec_spelled : WriteEntry.codec.Spelled :=
  .record ⟨optional PutEntry.codec_spelled, optional DeleteEntry.codec_spelled, trivial⟩ (by decide)
    rfl fun _ => rfl

theorem TransactRead.codec_spelled : TransactRead.codec.Spelled :=
  .record
    ⟨required .text, required Item.codec_spelled, optional .text, dictOrNothing .text, trivial⟩
    (by decide) rfl fun _ => rfl

theorem TransactReadEntry.codec_spelled : TransactReadEntry.codec.Spelled :=
  .record ⟨required TransactRead.codec_spelled, trivial⟩ (by decide) rfl fun _ => rfl

theorem TransactReadResult.codec_spelled : TransactReadResult.codec.Spelled :=
  .record ⟨optional Item.codec_spelled, trivial⟩ (by decide) rfl fun _ => rfl

/-- A check cannot do without its condition, unlike the writes that follow. -/
theorem TransactCheck.codec_spelled : TransactCheck.codec.Spelled :=
  .record
    ⟨required .text, required Item.codec_spelled, required .text, dictOrNothing .text,
      dictOrNothing .tagged, trivial⟩
    (by decide) rfl fun _ => rfl

theorem TransactPut.codec_spelled : TransactPut.codec.Spelled :=
  .record
    ⟨required .text, required Item.codec_spelled, optional .text, dictOrNothing .text,
      dictOrNothing .tagged, trivial⟩
    (by decide) rfl fun _ => rfl

theorem TransactDelete.codec_spelled : TransactDelete.codec.Spelled :=
  .record
    ⟨required .text, required Item.codec_spelled, optional .text, dictOrNothing .text,
      dictOrNothing .tagged, trivial⟩
    (by decide) rfl fun _ => rfl

/-- An update cannot do without its expression; its condition may be absent. -/
theorem TransactUpdate.codec_spelled : TransactUpdate.codec.Spelled :=
  .record
    ⟨required .text, required Item.codec_spelled, required .text, optional .text,
      dictOrNothing .text, dictOrNothing .tagged, trivial⟩
    (by decide) rfl fun _ => rfl

/-- An entry of a transaction is one of four kinds, and the fields of the other kinds are left out.
-/
theorem TransactWriteEntry.codec_spelled : TransactWriteEntry.codec.Spelled :=
  .record
    ⟨optional TransactCheck.codec_spelled, optional TransactPut.codec_spelled,
      optional TransactDelete.codec_spelled, optional TransactUpdate.codec_spelled, trivial⟩
    (by decide) rfl fun _ => rfl

/-! ### Bodies -/

namespace Operation

/-- Each body of a request has a spelling for all of its values. The cases differ only in what the
fields of the operation are. -/
theorem requestCodec_spelled (op : Operation) : op.requestCodec.Spelled := by
  cases op with
  | createTable =>
      exact .record
        ⟨required .text, required (.list KeyElement.codec_spelled),
          required (.list AttributeDefinition.codec_spelled), optional BillingMode.codec_spelled,
          optional Throughput.codec_spelled, listOrNothing GlobalIndex.codec_spelled,
          listOrNothing LocalIndex.codec_spelled, trivial⟩
        (by decide) rfl fun _ => rfl
  | deleteTable => exact .record ⟨required .text, trivial⟩ (by decide) rfl fun _ => rfl
  | putItem =>
      exact .record
        ⟨required .text, required Item.codec_spelled, optional .text, dictOrNothing .text,
          dictOrNothing .tagged, optional ReturnValue.codec_spelled, trivial⟩
        (by decide) rfl fun _ => rfl
  | getItem =>
      exact .record
        ⟨required .text, required Item.codec_spelled, optional .text, dictOrNothing .text,
          optional .flag, trivial⟩
        (by decide) rfl fun _ => rfl
  | updateItem =>
      exact .record
        ⟨required .text, required Item.codec_spelled, required .text, optional .text,
          dictOrNothing .text, dictOrNothing .tagged, optional ReturnValue.codec_spelled, trivial⟩
        (by decide) rfl fun _ => rfl
  | deleteItem =>
      exact .record
        ⟨required .text, required Item.codec_spelled, optional .text, dictOrNothing .text,
          dictOrNothing .tagged, optional ReturnValue.codec_spelled, trivial⟩
        (by decide) rfl fun _ => rfl
  | query =>
      exact .record
        ⟨required .text, optional .text, required .text, optional .text, dictOrNothing .text,
          dictOrNothing .tagged, optional .uint32, optional Item.codec_spelled, optional .flag,
          optional .flag, trivial⟩
        (by decide) rfl fun _ => rfl
  | scan =>
      exact .record
        ⟨required .text, optional .text, optional .text, dictOrNothing .text,
          dictOrNothing .tagged, optional .uint32, optional Item.codec_spelled, optional .flag,
          trivial⟩
        (by decide) rfl fun _ => rfl
  | batchGetItem =>
      exact .record ⟨required (.dict KeysRead.codec_spelled), trivial⟩ (by decide) rfl fun _ => rfl
  | batchWriteItem =>
      exact .record ⟨required (.dict (.list WriteEntry.codec_spelled)), trivial⟩ (by decide) rfl
        fun _ => rfl
  | transactGetItems =>
      exact .record ⟨required (.list TransactReadEntry.codec_spelled), trivial⟩ (by decide) rfl
        fun _ => rfl
  | transactWriteItems =>
      exact .record ⟨required (.list TransactWriteEntry.codec_spelled), trivial⟩ (by decide) rfl
        fun _ => rfl

/-- Each body of a response has a spelling for all of its values. Responses are read with defaults
where a service leaves fields out. -/
theorem responseCodec_spelled (op : Operation) : op.responseCodec.Spelled := by
  cases op with
  | createTable | deleteTable =>
      exact .record ⟨optional TableDescription.codec_spelled, trivial⟩ (by decide) rfl fun _ => rfl
  | putItem | getItem | updateItem | deleteItem =>
      exact .record ⟨optionalTail Item.codec_spelled, trivial⟩ (by decide) rfl fun _ => rfl
  | query | scan =>
      exact .record
        ⟨withDefault (.list Item.codec_spelled) _, withDefault .uint32 _, withDefault .uint32 _,
          optionalTail Item.codec_spelled, trivial⟩
        (by decide) rfl fun _ => rfl
  | batchGetItem =>
      exact .record
        ⟨withDefault (.dict (.list Item.codec_spelled)) _, dictOrNothing KeysRead.codec_spelled,
          trivial⟩
        (by decide) rfl fun _ => rfl
  | batchWriteItem =>
      exact .record ⟨dictOrNothing (.list WriteEntry.codec_spelled), trivial⟩ (by decide) rfl
        fun _ => rfl
  | transactGetItems =>
      exact .record ⟨withDefault (.list TransactReadResult.codec_spelled) _, trivial⟩ (by decide)
        rfl fun _ => rfl
  | transactWriteItems => exact .record trivial (by decide) rfl fun _ => rfl

end Operation

/-! ### All wire types -/

namespace WireType

/-- The bodies in the catalogue are those of the requests and of the responses of all operations. -/
theorem bodies_spelled : ∀ entry ∈ bodies, entry.2.codec.Spelled := by
  intro entry mem
  obtain ⟨op, -, mem⟩ := List.mem_flatMap.1 mem
  rw [List.mem_pair] at mem
  obtain rfl | rfl := mem
  · exact op.requestCodec_spelled
  · exact op.responseCodec_spelled

/-- Every entry of the catalogue has a spelling for all of its values. The lists of the catalogue
are gone through one by one, so that a type that is added to them has to be accounted for here. -/
theorem catalogue_spelled : ∀ entry ∈ catalogue, entry.2.codec.Spelled := by
  have choices : ∀ entry ∈ choices, entry.2.codec.Spelled := by
    simp only [WireType.choices, List.forall_mem_cons]
    exact ⟨KeyRole.codec_spelled, ScalarType.codec_spelled, BillingMode.codec_spelled,
      ProjectionType.codec_spelled, ReturnValue.codec_spelled, nofun⟩
  have layouts : ∀ entry ∈ layouts, entry.2.codec.Spelled := by
    simp only [WireType.layouts, List.forall_mem_cons]
    exact ⟨KeyElement.codec_spelled, AttributeDefinition.codec_spelled, Throughput.codec_spelled,
      Projection.codec_spelled, GlobalIndex.codec_spelled, LocalIndex.codec_spelled,
      TableDescription.codec_spelled, nofun⟩
  have entries : ∀ entry ∈ entries, entry.2.codec.Spelled := by
    simp only [WireType.entries, List.forall_mem_cons]
    exact ⟨KeysRead.codec_spelled, PutEntry.codec_spelled, DeleteEntry.codec_spelled,
      WriteEntry.codec_spelled, TransactRead.codec_spelled, TransactReadEntry.codec_spelled,
      TransactReadResult.codec_spelled, TransactCheck.codec_spelled, TransactPut.codec_spelled,
      TransactDelete.codec_spelled, TransactUpdate.codec_spelled, TransactWriteEntry.codec_spelled,
      nofun⟩
  simp only [catalogue, List.forall_mem_append, List.forall_mem_singleton]
  exact ⟨⟨⟨⟨bodies_spelled, choices⟩, layouts⟩, entries⟩, .tagged⟩

/-- The values of all wire types survive. A value in order is read from its own text, and from the
text of each document that spells it, with the fields of records in any order and among others; the
document that the codec gives it is one of these. Order is asked for because what is read has its
keys in order, and the nesting is limited because readers refuse to go deeper. -/
theorem survives {name : String} {wire : WireType} (mem : (name, wire) ∈ catalogue)
    {value : wire.Value} (inOrder : wire.codec.InOrder value) :
    ((wire.codec.encode value).nesting < 128 →
      wire.codec.parse (wire.codec.print value) = .ok value) ∧
    wire.codec.Spells value (wire.codec.encode value) ∧
    ∀ j, wire.codec.Spells value j → j.nesting < 128 → wire.codec.parse j.compact = .ok value := by
  have spells := (catalogue_spelled _ mem).spells value inOrder
  exact ⟨spells.parse_compact, spells, fun _ spells => spells.parse_compact⟩

/-- A page whose cursor is empty, with its fields in another order and among others. The page
without a cursor is another one. -/
theorem survives_query :
    ("QueryOutput", ⟨Response.Query.codec⟩) ∈ catalogue ∧
    Response.Query.codec.parse (Json.object
      [("Trace", .object [("Items", .null)]),
       ("LastEvaluatedKey", .object []),
       ("ScannedCount", Json.ofInt 2),
       ("Trace", .array [.bool true]),
       ("Items", .array [.object [("id", .object [("S", .string "a")])]]),
       ("Count", Json.ofInt 1)]).compact =
      .ok ⟨[[("id", .string "a")]], 1, 2, some []⟩ ∧
    Response.Query.codec.parse (Response.Query.codec.print ⟨[[("id", .string "a")]], 1, 2, none⟩) =
      .ok ⟨[[("id", .string "a")]], 1, 2, none⟩ := by
  have mem : ("QueryOutput", ⟨Response.Query.codec⟩) ∈ catalogue := by
    have body : ("QueryOutput", ⟨Response.Query.codec⟩) ∈ bodies :=
      List.mem_flatMap.2 ⟨.query, by decide, .tail _ (.head _)⟩
    simp only [catalogue, List.append_assoc]
    exact List.mem_append_left _ body
  have inOrder (cursor : Option Item) (h : cursor = none ∨ cursor = some []) :
      Response.Query.codec.InOrder ⟨[[("id", .string "a")]], 1, 2, cursor⟩ := by
    obtain rfl | rfl := h <;> rw [Codec.InOrder] <;> decide
  refine ⟨mem, ?_, (survives mem (inOrder none (.inl rfl))).1 (by decide)⟩
  refine (survives mem (inOrder (some []) (.inr rfl))).2.2 _ ?_ (by decide)
  refine Codec.spells_record ?_ (by decide) (fun _ => rfl) (inOrder (some []) (.inr rfl))
    [("Trace", .object [("Items", .null)]), ("Trace", .array [.bool true])] (by decide) (by decide)
    (by decide)
  exact ⟨withDefault (.list Item.codec_spelled) _, withDefault .uint32 _, withDefault .uint32 _,
    optionalTail Item.codec_spelled, trivial⟩

end WireType

end DocumentTable
