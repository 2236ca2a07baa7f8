import Crest.Json

/-!
# Session entries

A session is a tree of entries, stored as the list of all appends.  The types
follow the source's union of entry types; `type` is the constructor of the body.
Optional properties are `none` when the property is absent.
-/

namespace Session

/-- The part of an entry its `type` decides. -/
inductive SessionEntryBody
  | message (message : Json)
  | thinkingLevelChange (thinkingLevel : JsString)
  | modelChange (provider modelId : JsString)
  | compaction (summary firstKeptEntryId : JsString) (tokensBefore : ℚ)
      (details : Option Json) (fromHook : Option Bool)
  | branchSummary (fromId summary : JsString) (details : Option Json) (fromHook : Option Bool)
  | custom (customType : JsString) (data : Option Json)
  | customMessage (customType : JsString) (content : Json) (details : Option Json)
      (display : Bool)
  | label (targetId : JsString) (label : Option JsString)
  | sessionInfo (name : Option JsString)
  | leaf (targetId : Option JsString)
deriving DecidableEq, Repr, Inhabited

structure SessionTreeEntry where
  id : JsString
  parentId : Option JsString
  timestamp : JsString := []
  transactionId : Option JsString := none
  body : SessionEntryBody
deriving DecidableEq, Repr, Inhabited

/-- A string or `null`. -/
def nullableString (value : Option JsString) : Json := (value.map Json.str).getD .null

namespace SessionEntryBody

/-- The `type` property. -/
def type : SessionEntryBody → JsString
  | .message _ => js "message"
  | .thinkingLevelChange _ => js "thinking_level_change"
  | .modelChange _ _ => js "model_change"
  | .compaction _ _ _ _ _ => js "compaction"
  | .branchSummary _ _ _ _ => js "branch_summary"
  | .custom _ _ => js "custom"
  | .customMessage _ _ _ _ => js "custom_message"
  | .label _ _ => js "label"
  | .sessionInfo _ => js "session_info"
  | .leaf _ => js "leaf"

/-- The properties of an entry that belong to its type. -/
def fields : SessionEntryBody → List (JsString × Json)
  | .message value => [(js "message", value)]
  | .thinkingLevelChange level => [(js "thinkingLevel", .str level)]
  | .modelChange provider modelId => [(js "provider", .str provider), (js "modelId", .str modelId)]
  | .compaction summary firstKept tokens details fromHook =>
    [(js "summary", .str summary), (js "firstKeptEntryId", .str firstKept),
      (js "tokensBefore", .num tokens)] ++
    Json.optionalField (js "details") details ++
    Json.optionalField (js "fromHook") (fromHook.map .bool)
  | .branchSummary fromId summary details fromHook =>
    [(js "fromId", .str fromId), (js "summary", .str summary)] ++
    Json.optionalField (js "details") details ++
    Json.optionalField (js "fromHook") (fromHook.map .bool)
  | .custom customType data =>
    (js "customType", .str customType) :: Json.optionalField (js "data") data
  | .customMessage customType content details display =>
    [(js "customType", .str customType), (js "content", content)] ++
    Json.optionalField (js "details") details ++ [(js "display", .bool display)]
  | .label targetId text =>
    (js "targetId", .str targetId) :: Json.optionalField (js "label") (text.map .str)
  | .sessionInfo name => Json.optionalField (js "name") (name.map .str)
  | .leaf targetId => [(js "targetId", nullableString targetId)]

end SessionEntryBody

/-- The entry as the object it is. -/
def SessionTreeEntry.toJson (e : SessionTreeEntry) : Json :=
  .obj ([(js "type", .str e.body.type), (js "id", .str e.id),
      (js "parentId", nullableString e.parentId), (js "timestamp", .str e.timestamp)] ++
    Json.optionalField (js "transactionId") (e.transactionId.map .str) ++ e.body.fields)

end Session
