import Crest.JsMap
import Crest.Runs
import Mathlib.Data.List.Dedup
import Mathlib.Data.List.Induction

/-!
# The event broker

Routes subscribe to events, for all scopes or for listed ones, and the broker
sends a published event to every route whose subscription covers it.  A
subscription is spread over three structures per event; `routes` reads them at
a `Place`, and `Refines` says that what is found there is the route's latest
request and nothing else.  Of the events that are to be kept, each key of event
and scope holds the newest ones (`lastN`).
-/

namespace EventBroker

def MaxPersist : Nat := 4096

structure WaveEvent where
  Event : String
  Scopes : List String
  Sender : String
  Persist : Int
  Data : String
deriving DecidableEq

structure SubscriptionRequest where
  Event : String
  Scopes : List String
  AllScopes : Bool

abbrev ScopeMap := JsMap String (List String)

structure BrokerSubscription where
  AllSubs : List String := []
  ScopeSubs : ScopeMap := .empty
  StarSubs : ScopeMap := .empty

/-- The broker; of its client it is known whether there is one. -/
structure BrokerType where
  Client : Bool
  SubMap : JsMap String BrokerSubscription
  PersistMap : JsMap (String × String) (List WaveEvent)

/-! ## Scopes -/

/-- `strings.Split(scope, ":")`. -/
def parts (scope : String) : List (List Char) := scope.toList.splitOn ':'

def scopeHasStarMatch (scope : String) : Bool :=
  (parts scope).any fun part => part == ['*'] || part == ['*', '*']

/-- The loop of `StarMatchString` over the parts that are left. -/
def starMatchParts : List (List Char) → List (List Char) → Bool
  | [], strs => strs.isEmpty
  | pat :: pats, strs =>
    -- `**` must be at the end to be valid
    if pat = ['*', '*'] then pats.isEmpty
    else
      match strs with
      | [] => false
      | str :: strs => if pat ≠ ['*'] ∧ pat ≠ str then false else starMatchParts pats strs

def StarMatchString (pattern s : String) : Bool := starMatchParts (parts pattern) (parts s)

/-! ## Subscriptions -/

def AddElemToSliceUniq (arr : List String) (elem : String) : List String :=
  if elem ∈ arr then arr else arr ++ [elem]

def addStrToScopeMap (scopeMap : ScopeMap) (scope routeId : String) : ScopeMap :=
  scopeMap.set scope (AddElemToSliceUniq ((scopeMap.get scope).getD []) routeId)

def removeStrFromScopeMapAll (scopeMap : ScopeMap) (routeId : String) : ScopeMap :=
  scopeMap.filterMap fun _ scopeSubs =>
    if scopeSubs.erase routeId = [] then none else some (scopeSubs.erase routeId)

namespace BrokerSubscription

def IsEmpty (bs : BrokerSubscription) : Bool :=
  bs.AllSubs.isEmpty && bs.ScopeSubs.size == 0 && bs.StarSubs.size == 0

/-- What `Unsubscribe` and `UnsubscribeAll` do to one event's subscriptions. -/
def remove (routeId : String) (bs : BrokerSubscription) : BrokerSubscription where
  AllSubs := bs.AllSubs.erase routeId
  ScopeSubs := removeStrFromScopeMapAll bs.ScopeSubs routeId
  StarSubs := removeStrFromScopeMapAll bs.StarSubs routeId

def addScope (routeId : String) (bs : BrokerSubscription) (scope : String) :
    BrokerSubscription :=
  if scopeHasStarMatch scope then
    { bs with StarSubs := addStrToScopeMap bs.StarSubs scope routeId }
  else { bs with ScopeSubs := addStrToScopeMap bs.ScopeSubs scope routeId }

/-- The last part of `Subscribe`. -/
def addRequest (routeId : String) (sub : SubscriptionRequest) (bs : BrokerSubscription) :
    BrokerSubscription :=
  if sub.AllScopes then { bs with AllSubs := AddElemToSliceUniq bs.AllSubs routeId }
  else sub.Scopes.foldl (·.addScope routeId) bs

end BrokerSubscription

namespace BrokerType

def unsubscribe_nolock (routeId eventName : String) (b : BrokerType) : BrokerType :=
  match b.SubMap.get eventName with
  | none => b
  | some bs =>
    if (bs.remove routeId).IsEmpty then { b with SubMap := b.SubMap.delete eventName }
    else { b with SubMap := b.SubMap.set eventName (bs.remove routeId) }

def UnsubscribeAll (routeId : String) (b : BrokerType) : BrokerType :=
  { b with
    SubMap := b.SubMap.filterMap fun _ bs =>
      if (bs.remove routeId).IsEmpty then none else some (bs.remove routeId) }

def Subscribe (routeId : String) (sub : SubscriptionRequest) (b : BrokerType) : BrokerType :=
  if sub.Event = "" then b
  else
    let b := b.unsubscribe_nolock routeId sub.Event
    { b with
      SubMap := b.SubMap.set sub.Event
        (((b.SubMap.get sub.Event).getD {}).addRequest routeId sub) }

/-! ## Events -/

/-- The newest `n` elements. -/
def lastN {α : Type*} (n : Nat) (l : List α) : List α := l.drop (l.length - n)

def retained (b : BrokerType) (key : String × String) : List WaveEvent :=
  (b.PersistMap.get key).getD []

def ReadEventHistory (b : BrokerType) (eventType scope : String) (maxItems : Int) :
    List WaveEvent :=
  if maxItems ≤ 0 then []
  else
    let events := b.retained (eventType, scope)
    lastN (min maxItems.toNat events.length) events

def persistEvent (event : WaveEvent) (b : BrokerType) : BrokerType :=
  if event.Persist ≤ 0 then b
  else
    { b with
      PersistMap := (event.Scopes ++ [""]).dedup.foldl (fun m scope =>
        m.set (event.Event, scope) (lastN (min event.Persist.toNat MaxPersist)
          ((m.get (event.Event, scope)).getD [] ++ [event]))) b.PersistMap }

/-- The routes an event goes to.  The source collects them in a map, whose
order is any. -/
def getMatchingRouteIds (b : BrokerType) (event : WaveEvent) : List String :=
  match b.SubMap.get event.Event with
  | none => []
  | some bs =>
    (bs.AllSubs ++ event.Scopes.flatMap fun scope =>
      (bs.ScopeSubs.get scope).getD [] ++ bs.StarSubs.entries.flatMap fun entry =>
        if StarMatchString entry.1 scope then entry.2 else []).dedup

/-- `Publish`, with the events handed to the client. -/
def Publish (event : WaveEvent) (b : BrokerType) : BrokerType × List (String × WaveEvent) :=
  let b := b.persistEvent event
  (b, if b.Client then (b.getMatchingRouteIds event).map (·, event) else [])

end BrokerType

inductive Op where
  | subscribe (routeId : String) (sub : SubscriptionRequest)
  | unsubscribe (routeId eventName : String)
  | unsubscribeAll (routeId : String)
  | publish (event : WaveEvent)

def step (b : BrokerType) : Op → BrokerType
  | .subscribe routeId sub => b.Subscribe routeId sub
  | .unsubscribe routeId eventName => b.unsubscribe_nolock routeId eventName
  | .unsubscribeAll routeId => b.UnsubscribeAll routeId
  | .publish event => (b.Publish event).1

def newBroker : BrokerType := ⟨true, .empty, .empty⟩

/-! ## What stands at a place -/

/-- Where a route may stand in an event's subscriptions. -/
inductive Place where
  | all
  | scope (scope : String)
  | star (scope : String)
deriving DecidableEq

def placeOf (scope : String) : Place :=
  if scopeHasStarMatch scope then .star scope else .scope scope

def SubscriptionRequest.places (sub : SubscriptionRequest) : List Place :=
  if sub.AllScopes then [.all] else sub.Scopes.map placeOf

def BrokerSubscription.routes (bs : BrokerSubscription) : Place → List String
  | .all => bs.AllSubs
  | .scope scope => (bs.ScopeSubs.get scope).getD []
  | .star scope => (bs.StarSubs.get scope).getD []

def BrokerType.routes (b : BrokerType) (eventName : String) (place : Place) : List String :=
  ((b.SubMap.get eventName).getD {}).routes place

section Places

variable {bs : BrokerSubscription} {b : BrokerType} {routeId : String} {place : Place}

theorem routes_empty : ({} : BrokerSubscription).routes place = [] := by
  cases place <;> rfl

theorem getD_removeStrFromScopeMapAll (scopeMap : ScopeMap) (scope : String) :
    ((removeStrFromScopeMapAll scopeMap routeId).get scope).getD [] =
      ((scopeMap.get scope).getD []).erase routeId := by
  rw [removeStrFromScopeMapAll, JsMap.get_filterMap]
  cases scopeMap.get scope with
  | none => rfl
  | some subs =>
    rw [Option.bind_some, Option.getD_some]
    split
    · next hnone => rw [Option.getD_none, hnone]
    · rw [Option.getD_some]

theorem routes_remove : (bs.remove routeId).routes place = (bs.routes place).erase routeId := by
  cases place with
  | all => rfl
  | scope scope => exact getD_removeStrFromScopeMapAll bs.ScopeSubs scope
  | star scope => exact getD_removeStrFromScopeMapAll bs.StarSubs scope

theorem routes_of_isEmpty (h : bs.IsEmpty = true) : bs.routes place = [] := by
  simp only [BrokerSubscription.IsEmpty, Bool.and_eq_true, List.isEmpty_iff, beq_iff_eq,
    JsMap.size_eq_zero_iff] at h
  cases place with
  | all => exact h.1.1
  | scope scope => rw [BrokerSubscription.routes, h.1.2 scope, Option.getD_none]
  | star scope => rw [BrokerSubscription.routes, h.2 scope, Option.getD_none]

theorem routes_unsubscribe (eventName other : String) :
    (b.unsubscribe_nolock routeId eventName).routes other place =
      if other = eventName then (b.routes other place).erase routeId
      else b.routes other place := by
  rw [BrokerType.unsubscribe_nolock]
  by_cases hother : other = eventName
  · subst hother
    rw [if_pos rfl, BrokerType.routes, BrokerType.routes]
    cases hget : b.SubMap.get other with
    | none => simp [hget, routes_empty]
    | some bs =>
      dsimp only
      split
      · next hempty =>
        rw [JsMap.get_delete, if_pos rfl, Option.getD_none, routes_empty, Option.getD_some,
          ← routes_remove, routes_of_isEmpty hempty]
      · rw [JsMap.get_set, if_pos rfl, Option.getD_some, Option.getD_some, routes_remove]
  · rw [if_neg hother, BrokerType.routes, BrokerType.routes]
    cases b.SubMap.get eventName with
    | none => rfl
    | some bs => dsimp only; split <;> simp [hother]

theorem routes_unsubscribeAll (eventName : String) :
    (b.UnsubscribeAll routeId).routes eventName place =
      (b.routes eventName place).erase routeId := by
  rw [BrokerType.UnsubscribeAll, BrokerType.routes, BrokerType.routes]
  dsimp only
  rw [JsMap.get_filterMap]
  cases b.SubMap.get eventName with
  | none => simp [routes_empty]
  | some bs =>
    rw [Option.bind_some, Option.getD_some, ← routes_remove]
    split
    · next hempty => rw [Option.getD_none, routes_empty, routes_of_isEmpty hempty]
    · rw [Option.getD_some]

theorem routes_addScope (scope : String) :
    (bs.addScope routeId scope).routes place =
      if place = placeOf scope then AddElemToSliceUniq (bs.routes place) routeId
      else bs.routes place := by
  rw [BrokerSubscription.addScope, placeOf]
  split
  · cases place with
    | star other =>
      by_cases hother : other = scope <;>
        simp [BrokerSubscription.routes, addStrToScopeMap, hother]
    | _ => simp [BrokerSubscription.routes]
  · cases place with
    | scope other =>
      by_cases hother : other = scope <;>
        simp [BrokerSubscription.routes, addStrToScopeMap, hother]
    | _ => simp [BrokerSubscription.routes]

theorem mem_addElemToSliceUniq {arr : List String} {x : String} :
    x ∈ AddElemToSliceUniq arr routeId ↔ x ∈ arr ∨ x = routeId := by
  rw [AddElemToSliceUniq]
  split
  · next hmem => exact ⟨.inl, fun h => h.elim id fun heq => heq ▸ hmem⟩
  · simp

theorem nodup_addElemToSliceUniq {arr : List String} (h : arr.Nodup) :
    (AddElemToSliceUniq arr routeId).Nodup := by
  rw [AddElemToSliceUniq]
  split
  · exact h
  · next hnew => exact List.concat_eq_append ▸ List.Nodup.concat hnew h

end Places

/-! ## Subscriptions as requests -/

/-- Which request each route has for each event. -/
abbrev Requests := String → String → Option SubscriptionRequest

/-- The latest `Subscribe` of a route for an event that no later `Unsubscribe`
or `UnsubscribeAll` took back.  The event without a name cannot be subscribed
to. -/
def request (current : Requests) : Op → Requests
  | .subscribe routeId sub =>
    if sub.Event = "" then current
    else fun route event =>
      if route = routeId ∧ event = sub.Event then some sub else current route event
  | .unsubscribe routeId eventName => fun route event =>
    if route = routeId ∧ event = eventName then none else current route event
  | .unsubscribeAll routeId => fun route event =>
    if route = routeId then none else current route event
  | .publish _ => current

def requests (ops : List Op) : Requests := Runs.run request (fun _ _ => none) ops

/-- The broker's structures hold the requests. -/
structure Refines (b : BrokerType) (current : Requests) : Prop where
  nodup : ∀ event place, (b.routes event place).Nodup
  mem : ∀ event place route, route ∈ b.routes event place ↔
    ∃ sub, current route event = some sub ∧ place ∈ sub.places

section Refinement

variable {b : BrokerType} {current : Requests}

theorem Refines.unsubscribe
    (h : Refines b current) (routeId eventName : String) :
    Refines (b.unsubscribe_nolock routeId eventName)
      (request current (.unsubscribe routeId eventName)) := by
  constructor
  · intro event place
    rw [routes_unsubscribe]
    split
    · exact (h.nodup event place).erase routeId
    · exact h.nodup event place
  · intro event place route
    rw [routes_unsubscribe, request]
    by_cases hevent : event = eventName
    · rw [if_pos hevent, (h.nodup event place).mem_erase_iff, h.mem]
      by_cases hroute : route = routeId <;> simp [hroute, hevent]
    · simp [hevent, h.mem]

theorem Refines.unsubscribeAll
    (h : Refines b current) (routeId : String) :
    Refines (b.UnsubscribeAll routeId) (request current (.unsubscribeAll routeId)) := by
  constructor
  · intro event place
    rw [routes_unsubscribeAll]
    exact (h.nodup event place).erase routeId
  · intro event place route
    rw [routes_unsubscribeAll, (h.nodup event place).mem_erase_iff, h.mem, request]
    by_cases hroute : route = routeId <;> simp [hroute]

theorem routes_addScopes
    {routeId : String} {bs : BrokerSubscription} (scopes : List String)
    (hnodup : ∀ place, (bs.routes place).Nodup) (place : Place) :
    ((scopes.foldl (·.addScope routeId) bs).routes place).Nodup ∧
      ∀ route, route ∈ (scopes.foldl (·.addScope routeId) bs).routes place ↔
        route ∈ bs.routes place ∨ route = routeId ∧ place ∈ scopes.map placeOf := by
  induction scopes generalizing bs with
  | nil => simpa using hnodup place
  | cons scope scopes ih =>
    have hadded : ∀ place, ((bs.addScope routeId scope).routes place).Nodup := by
      intro place
      rw [routes_addScope]
      split
      · exact nodup_addElemToSliceUniq (hnodup place)
      · exact hnodup place
    refine ⟨(ih hadded).1, fun route => ?_⟩
    rw [List.foldl_cons, (ih hadded).2, routes_addScope, List.map_cons, List.mem_cons]
    split
    · next hplace =>
      rw [mem_addElemToSliceUniq]
      constructor
      · rintro ((hold | hroute) | ⟨hroute, -⟩)
        · exact .inl hold
        all_goals exact .inr ⟨hroute, .inl hplace⟩
      · rintro (hold | ⟨hroute, -⟩)
        · exact .inl (.inl hold)
        · exact .inl (.inr hroute)
    · next hplace => simp [hplace]

theorem routes_addRequest
    {routeId : String} {sub : SubscriptionRequest} {bs : BrokerSubscription}
    (hnodup : ∀ place, (bs.routes place).Nodup) (place : Place) :
    ((bs.addRequest routeId sub).routes place).Nodup ∧
      ∀ route, route ∈ (bs.addRequest routeId sub).routes place ↔
        route ∈ bs.routes place ∨ route = routeId ∧ place ∈ sub.places := by
  rw [BrokerSubscription.addRequest, SubscriptionRequest.places]
  split
  · cases place with
    | all =>
      refine ⟨nodup_addElemToSliceUniq (hnodup .all), fun route => ?_⟩
      rw [BrokerSubscription.routes, mem_addElemToSliceUniq]
      simp [BrokerSubscription.routes]
    | scope scope => exact ⟨hnodup (.scope scope), fun route => by simp [BrokerSubscription.routes]⟩
    | star scope => exact ⟨hnodup (.star scope), fun route => by simp [BrokerSubscription.routes]⟩
  · exact routes_addScopes sub.Scopes hnodup place

theorem Refines.subscribe
    (h : Refines b current) (routeId : String) (sub : SubscriptionRequest) :
    Refines (b.Subscribe routeId sub) (request current (.subscribe routeId sub)) := by
  rw [BrokerType.Subscribe, request]
  split
  · exact h
  have hrest := h.unsubscribe routeId sub.Event
  generalize b.unsubscribe_nolock routeId sub.Event = b' at hrest
  dsimp only
  have hroutes : ∀ bs event place,
      BrokerType.routes { b' with SubMap := b'.SubMap.set sub.Event bs } event place =
        if event = sub.Event then bs.routes place else b'.routes event place := by
    intro bs event place
    rw [BrokerType.routes, JsMap.get_set]
    split <;> rfl
  have hadded := @routes_addRequest routeId sub _ (hrest.nodup sub.Event)
  constructor
  · intro event place
    rw [hroutes]
    split
    · exact (hadded place).1
    · exact hrest.nodup event place
  · intro event place route
    rw [hroutes]
    split
    · next hevent =>
      have hold := hrest.mem sub.Event place route
      rw [BrokerType.routes] at hold
      rw [(hadded place).2, hold, request]
      by_cases hroute : route = routeId <;> simp [hroute, hevent]
    · next hevent =>
      rw [hrest.mem, request]
      simp [hevent]

theorem refines_persistEvent
    (h : Refines b current) (event : WaveEvent) : Refines (b.persistEvent event) current := by
  rw [BrokerType.persistEvent]
  split
  · exact h
  · exact ⟨h.nodup, h.mem⟩

/-- The pattern's parts stand for the scope's: a star for any one part, a
final double star for any rest. -/
inductive Matching : List (List Char) → List (List Char) → Prop
  | done : Matching [] []
  | rest {strs} : Matching [['*', '*']] strs
  | star {pats str strs} : Matching pats strs → Matching (['*'] :: pats) (str :: strs)
  | same {str pats strs} : str ≠ ['*', '*'] → Matching pats strs →
      Matching (str :: pats) (str :: strs)

theorem starMatchParts_iff {pats strs : List (List Char)} :
    starMatchParts pats strs = true ↔ Matching pats strs := by
  constructor
  · intro h
    induction pats generalizing strs with
    | nil =>
      obtain rfl := List.isEmpty_iff.mp h
      exact .done
    | cons pat pats ih =>
      rw [starMatchParts.eq_def] at h
      dsimp only at h
      split at h
      · next hpat =>
        rw [hpat, List.isEmpty_iff.mp h]
        exact .rest
      · next hpat =>
        cases strs with
        | nil => cases h
        | cons str strs =>
          dsimp only at h
          split at h
          · cases h
          · next hone =>
            rw [not_and_or, not_not, not_not] at hone
            rcases hone with rfl | rfl
            · exact .star (ih h)
            · exact .same hpat (ih h)
  · intro h
    induction h with
    | done | rest => rfl
    | star _ ih => simpa [starMatchParts] using ih
    | same hne _ ih => simpa [starMatchParts, hne] using ih

theorem mem_places_all {sub : SubscriptionRequest} :
    .all ∈ sub.places ↔ sub.AllScopes = true := by
  rw [SubscriptionRequest.places]
  cases sub.AllScopes with
  | true => simp
  | false =>
    simp only [Bool.false_eq_true, if_false, List.mem_map, iff_false]
    rintro ⟨asked, -, hplace⟩
    rw [placeOf] at hplace
    split at hplace <;> cases hplace

theorem mem_places_scope {sub : SubscriptionRequest} {scope : String} :
    .scope scope ∈ sub.places ↔
      sub.AllScopes = false ∧ scope ∈ sub.Scopes ∧ scopeHasStarMatch scope = false := by
  rw [SubscriptionRequest.places]
  cases sub.AllScopes with
  | true => simp
  | false =>
    simp only [Bool.false_eq_true, if_false, List.mem_map, true_and]
    constructor
    · rintro ⟨asked, hasked, hplace⟩
      rw [placeOf] at hplace
      split at hplace
      · cases hplace
      · next hplain =>
        cases hplace
        exact ⟨hasked, Bool.eq_false_iff.mpr hplain⟩
    · rintro ⟨hasked, hplain⟩
      exact ⟨scope, hasked, by simp [placeOf, hplain]⟩

theorem mem_places_star {sub : SubscriptionRequest} {scope : String} :
    .star scope ∈ sub.places ↔
      sub.AllScopes = false ∧ scope ∈ sub.Scopes ∧ scopeHasStarMatch scope = true := by
  rw [SubscriptionRequest.places]
  cases sub.AllScopes with
  | true => simp
  | false =>
    simp only [Bool.false_eq_true, if_false, List.mem_map, true_and]
    constructor
    · rintro ⟨asked, hasked, hplace⟩
      rw [placeOf] at hplace
      split at hplace
      · next hstar =>
        cases hplace
        exact ⟨hasked, hstar⟩
      · cases hplace
    · rintro ⟨hasked, hstar⟩
      exact ⟨scope, hasked, by simp [placeOf, hstar]⟩

/-- A request covers an event with these scopes. -/
def SubscriptionRequest.Covers (sub : SubscriptionRequest) (scopes : List String) : Prop :=
  sub.AllScopes = true ∨ ∃ asked ∈ sub.Scopes, ∃ scope ∈ scopes,
    if scopeHasStarMatch asked then Matching (parts asked) (parts scope) else asked = scope

theorem Refines.mem_matching
    (h : Refines b current) (event : WaveEvent) (route : String) :
    route ∈ b.getMatchingRouteIds event ↔
      ∃ sub, current route event.Event = some sub ∧ sub.Covers event.Scopes := by
  have hfound : route ∈ b.getMatchingRouteIds event ↔
      route ∈ b.routes event.Event .all ∨ ∃ scope ∈ event.Scopes,
        route ∈ b.routes event.Event (.scope scope) ∨
          ∃ star, StarMatchString star scope = true ∧ route ∈ b.routes event.Event (.star star) := by
    rw [BrokerType.getMatchingRouteIds]
    simp only [BrokerType.routes]
    cases b.SubMap.get event.Event with
    | none => simp [routes_empty]
    | some bs =>
      dsimp only
      rw [List.mem_dedup, List.mem_append, List.mem_flatMap]
      refine or_congr_right (exists_congr fun scope => and_congr_right fun _ => ?_)
      rw [List.mem_append, List.mem_flatMap]
      refine or_congr_right ⟨?_, ?_⟩
      · rintro ⟨entry, hentry, hroute⟩
        split at hroute
        · next hmatch =>
          refine ⟨entry.1, hmatch, ?_⟩
          rw [Option.getD_some, BrokerSubscription.routes, JsMap.get_of_mem_entries hentry]
          exact hroute
        · cases hroute
      · rintro ⟨star, hmatch, hroute⟩
        rw [Option.getD_some, BrokerSubscription.routes] at hroute
        cases hget : bs.StarSubs.get star with
        | none => simp [hget] at hroute
        | some subs =>
          rw [hget] at hroute
          exact ⟨(star, subs), JsMap.mem_entries_of_get hget, by simpa [hmatch] using hroute⟩
  rw [hfound]
  simp only [h.mem, StarMatchString, starMatchParts_iff, mem_places_all, mem_places_scope,
    mem_places_star]
  constructor
  · rintro (⟨sub, hsub, hall⟩ | ⟨scope, hscope, ⟨sub, hsub, -, hasked, hplain⟩ |
      ⟨star, hmatch, sub, hsub, -, hasked, hstar⟩⟩)
    · exact ⟨sub, hsub, .inl hall⟩
    · exact ⟨sub, hsub, .inr ⟨scope, hasked, scope, hscope, by simp [hplain]⟩⟩
    · exact ⟨sub, hsub, .inr ⟨star, hasked, scope, hscope, by rwa [if_pos hstar]⟩⟩
  · rintro ⟨sub, hsub, hcovers⟩
    cases hall : sub.AllScopes with
    | true => exact .inl ⟨sub, hsub, hall⟩
    | false =>
      obtain ⟨asked, hasked, scope, hscope, hcovers⟩ :=
        hcovers.resolve_left (by rw [hall]; decide)
      refine .inr ⟨scope, hscope, ?_⟩
      cases hstar : scopeHasStarMatch asked with
      | true =>
        rw [if_pos hstar] at hcovers
        exact .inr ⟨asked, hcovers, sub, hsub, hall, hasked, hstar⟩
      | false =>
        rw [hstar, if_neg (by decide)] at hcovers
        subst hcovers
        exact .inl ⟨sub, hsub, hall, hasked, hstar⟩

end Refinement

/-! ## The events that are kept -/

section LastN

variable {α : Type*}

theorem length_lastN (n : Nat) (l : List α) : (BrokerType.lastN n l).length = min n l.length := by
  rw [BrokerType.lastN, List.length_drop]
  omega

theorem lastN_lastN (n m : Nat) (l : List α) :
    BrokerType.lastN n (BrokerType.lastN m l) = BrokerType.lastN (min n m) l := by
  rw [BrokerType.lastN, length_lastN, BrokerType.lastN, BrokerType.lastN, List.drop_drop]
  congr 1
  omega

theorem lastN_append_singleton {m : Nat} {l : List α} (x : α) :
    BrokerType.lastN m l ++ [x] = BrokerType.lastN (m + 1) (l ++ [x]) := by
  rw [BrokerType.lastN, BrokerType.lastN, List.length_append, List.length_singleton,
    Nat.add_sub_add_right, List.drop_append_of_le_length (Nat.sub_le _ _)]

end LastN

/-- The event an operation publishes for a key, if it asks to be kept. -/
def keptEvent (key : String × String) : Op → Option WaveEvent
  | .publish event =>
    if 0 < event.Persist ∧ event.Event = key.1 ∧ (key.2 = "" ∨ key.2 ∈ event.Scopes) then
      some event
    else none
  | _ => none

def published (key : String × String) (ops : List Op) : List WaveEvent :=
  ops.filterMap (keptEvent key)

/-- How many are retained: each of them keeps the newest it asks for. -/
def retainedCount (events : List WaveEvent) : Nat :=
  events.foldl (fun m event => min (m + 1) (min event.Persist.toNat MaxPersist)) 0

theorem retainedCount_concat (events : List WaveEvent) (event : WaveEvent) :
    retainedCount (events ++ [event]) =
      min (retainedCount events + 1) (min event.Persist.toNat MaxPersist) := by
  rw [retainedCount, List.foldl_concat, retainedCount]

theorem retainedCount_le (events : List WaveEvent) :
    retainedCount events ≤ events.length := by
  induction events using List.reverseRecOn with
  | nil => exact Nat.le_refl _
  | append_singleton events event ih =>
    rw [retainedCount_concat, List.length_append, List.length_singleton]
    omega

theorem retained_foldl
    {m : JsMap (String × String) (List WaveEvent)} {event : WaveEvent} {n : Nat}
    {scopes : List String} (hnodup : scopes.Nodup) (key : String × String) :
    ((scopes.foldl (fun m scope => m.set (event.Event, scope)
        (BrokerType.lastN n ((m.get (event.Event, scope)).getD [] ++ [event]))) m).get key).getD [] =
      if key.1 = event.Event ∧ key.2 ∈ scopes then
        BrokerType.lastN n ((m.get key).getD [] ++ [event])
      else (m.get key).getD [] := by
  obtain ⟨name, keyScope⟩ := key
  induction scopes generalizing m with
  | nil => simp
  | cons scope scopes ih =>
    obtain ⟨hnot, hnodup⟩ := List.nodup_cons.mp hnodup
    rw [List.foldl_cons, ih hnodup, JsMap.get_set]
    by_cases hname : name = event.Event
    · by_cases hscope : keyScope = scope
      · simp [hname, hscope, hnot]
      · simp [hname, hscope]
    · simp [hname]

theorem retained_persistEvent
    (b : BrokerType) (event : WaveEvent) (key : String × String) :
    (b.persistEvent event).retained key =
      if 0 < event.Persist ∧ event.Event = key.1 ∧ (key.2 = "" ∨ key.2 ∈ event.Scopes) then
        BrokerType.lastN (min event.Persist.toNat MaxPersist) (b.retained key ++ [event])
      else b.retained key := by
  rw [BrokerType.persistEvent]
  split
  · next hnone => rw [if_neg (by omega)]
  · next hsome =>
    rw [BrokerType.retained, retained_foldl (List.nodup_dedup _)]
    have hpos : 0 < event.Persist := by omega
    simp only [List.mem_dedup, List.mem_append, List.mem_singleton, hpos, true_and,
      BrokerType.retained, eq_comm (a := key.1), or_comm (a := key.2 = "")]

/-! ## Runs -/

/-- What is promised of the broker after any operations. -/
structure Delivers (ops : List Op) (b : BrokerType) : Prop where
  sent : ∀ event, (b.Publish event).2 = (b.getMatchingRouteIds event).map (·, event) ∧
    (b.getMatchingRouteIds event).Nodup ∧
    ∀ route, route ∈ b.getMatchingRouteIds event ↔
      ∃ sub, requests ops route event.Event = some sub ∧ sub.Covers event.Scopes
  history : ∀ eventType scope maxItems, b.ReadEventHistory eventType scope maxItems =
    BrokerType.lastN
      (min maxItems.toNat (retainedCount (published (eventType, scope) ops)))
      (published (eventType, scope) ops)
  current : ∀ event place route, route ∈ b.routes event place →
    (requests ops route event).isSome

/-- What an operation does to the requests and to the kept events. -/
structure Holds (ops : List Op) (b : BrokerType) : Prop where
  client : b.Client = true
  refines : Refines b (requests ops)
  retained : ∀ key, b.retained key =
    BrokerType.lastN (retainedCount (published key ops)) (published key ops)

theorem step_retained
    (b : BrokerType) (op : Op) :
    (step b op).Client = b.Client ∧
      ((∀ event, op ≠ .publish event) → (step b op).PersistMap = b.PersistMap) := by
  have hunsubscribe : ∀ routeId eventName,
      (b.unsubscribe_nolock routeId eventName).Client = b.Client ∧
        (b.unsubscribe_nolock routeId eventName).PersistMap = b.PersistMap := by
    intro routeId eventName
    rw [BrokerType.unsubscribe_nolock]
    split
    · exact ⟨rfl, rfl⟩
    · split <;> exact ⟨rfl, rfl⟩
  cases op with
  | publish event =>
    refine ⟨?_, fun hother => absurd rfl (hother event)⟩
    rw [step, BrokerType.Publish, BrokerType.persistEvent]
    split <;> rfl
  | subscribe routeId sub =>
    rw [step, BrokerType.Subscribe]
    split
    · exact ⟨rfl, fun _ => rfl⟩
    · exact (hunsubscribe routeId sub.Event).imp_right fun h _ => h
  | unsubscribe routeId eventName =>
    exact (hunsubscribe routeId eventName).imp_right fun h _ => h
  | unsubscribeAll routeId => exact ⟨rfl, fun _ => rfl⟩

theorem Holds.step
    {ops : List Op} {b : BrokerType} (h : Holds ops b) (op : Op) :
    Holds (ops ++ [op]) (step b op) := by
  have hrequests : requests (ops ++ [op]) = request (requests ops) op := by
    rw [requests, Runs.run_append]
    rfl
  have hpublished : ∀ key, published key (ops ++ [op]) =
      published key ops ++ (keptEvent key op).toList := by
    intro key
    rw [published, List.filterMap_append, published]
    cases hkept : keptEvent key op <;> simp [hkept]
  have hretained := step_retained b op
  have hother : (∀ event, op ≠ .publish event) → (∀ key, keptEvent key op = none) →
      ∀ key, (EventBroker.step b op).retained key = BrokerType.lastN
        (retainedCount (published key (ops ++ [op]))) (published key (ops ++ [op])) := by
    intro hnot hnone key
    rw [BrokerType.retained, hretained.2 hnot, hpublished, hnone, Option.toList_none,
      List.append_nil]
    exact h.retained key
  cases op with
  | publish event =>
    refine ⟨hretained.1.trans h.client, ?_, fun key => ?_⟩
    · rw [hrequests]
      exact refines_persistEvent h.refines event
    · have hnew := retained_persistEvent b event key
      rw [h.retained] at hnew
      change (b.persistEvent event).retained key = _
      rw [hnew, hpublished, keptEvent]
      split
      · rw [lastN_append_singleton, lastN_lastN, Option.toList_some,
          retainedCount_concat, Nat.min_comm]
      · rw [Option.toList_none, List.append_nil]
  | subscribe routeId sub =>
    exact ⟨hretained.1.trans h.client, hrequests ▸ h.refines.subscribe routeId sub,
      hother nofun fun _ => rfl⟩
  | unsubscribe routeId eventName =>
    exact ⟨hretained.1.trans h.client, hrequests ▸ h.refines.unsubscribe routeId eventName,
      hother nofun fun _ => rfl⟩
  | unsubscribeAll routeId =>
    exact ⟨hretained.1.trans h.client, hrequests ▸ h.refines.unsubscribeAll routeId,
      hother nofun fun _ => rfl⟩

theorem holds_run (ops : List Op) : Holds ops (Runs.run step newBroker ops) := by
  induction ops using List.reverseRecOn with
  | nil =>
    refine ⟨rfl, ⟨fun event place => ?_, fun event place route => ?_⟩, fun _ => rfl⟩
    · change (BrokerSubscription.routes {} place).Nodup
      rw [routes_empty]
      exact List.nodup_nil
    · change route ∈ BrokerSubscription.routes {} place ↔ _
      rw [routes_empty]
      simp [requests]
  | append_singleton ops op ih =>
    rw [Runs.run_append]
    exact ih.step op

/-- **Events reach the routes whose latest request covers them, once each, and
the newest are kept**, after any operations of a broker that has a client. -/
theorem delivers_run (ops : List Op) : Delivers ops (Runs.run step newBroker ops) := by
  have h := holds_run ops
  generalize Runs.run step newBroker ops = b at h
  refine ⟨fun event => ⟨?_, ?_, fun route => h.refines.mem_matching event route⟩, ?_, ?_⟩
  · have hclient := (step_retained b (.publish event)).1.trans h.client
    have hmatching : (b.persistEvent event).getMatchingRouteIds event =
        b.getMatchingRouteIds event := by
      rw [BrokerType.persistEvent]
      split <;> rfl
    rw [← hmatching]
    exact if_pos hclient
  · rw [BrokerType.getMatchingRouteIds]
    split
    · exact List.nodup_nil
    · exact List.nodup_dedup _
  · intro eventType scope maxItems
    rw [BrokerType.ReadEventHistory, h.retained]
    split
    · next hnone => simp [Int.toNat_of_nonpos hnone, BrokerType.lastN]
    · dsimp only
      rw [length_lastN, lastN_lastN]
      congr 1
      have := retainedCount_le (published (eventType, scope) ops)
      omega
  · intro event place route hroute
    obtain ⟨sub, hsub, -⟩ := (h.refines.mem event place route).mp hroute
    rw [hsub]
    rfl

/-- An event without a name cannot be subscribed to, and a double star that is
not last matches nothing, itself included. -/
theorem not_sent :
    ((Runs.run step newBroker [.subscribe "r" ⟨"", [], true⟩]).Publish
      ⟨"", [], "", 0, ""⟩).2 = [] ∧
    ((Runs.run step newBroker [.subscribe "r" ⟨"e", ["**:a"], false⟩]).Publish
      ⟨"e", ["**:a"], "", 0, ""⟩).2 = [] := by
  constructor <;> decide

end EventBroker
