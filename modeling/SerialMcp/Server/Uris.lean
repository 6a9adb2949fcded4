/-
  Resource URIs (`resources/mod.rs`, the URI part of `resource_events.rs`, and
  `accepted_subscription_filter` in `server.rs`).

  * `parseResourceUri`: what a URI stands for; `connectionUri`: the URI of a
    connection, if its id can have one;
  * `parseResourceUri_eq`: parsing normalises nothing: what a URI stands for
    determines it;
  * `subscribable_iff`: the URIs that may be subscribed to are exactly those
    that the hub publishes for some connection, or for the two lists;
  * `accepted_exact`: what is accepted of a request, and what a listener makes of
    the list that it is accepted for.
-/
import SerialMcp.Server.Listen
import SerialMcp.Text

namespace SerialMcp.Resources

/-! ## URIs -/

/-- `str::strip_prefix` -/
def strippedFront (front s : Text) : Option Text :=
  if front.isPrefixOf s then some (s.drop front.length) else none

/-- `str::strip_suffix` -/
def strippedBack (back s : Text) : Option Text :=
  if back.isSuffixOf s then some (s.take (s.length - back.length)) else none

/-- `URI_PORTS` -/
def uriPorts : Text := "serial://ports".toList

/-- `URI_CONNECTIONS` -/
def uriConnections : Text := "serial://connections".toList

/-- `URI_CONNECTION_PREFIX` -/
def uriConnectionFront : Text := "serial://connections/".toList

/-- What a connection has resources for, with their suffixes. -/
inductive ConnectionResource where
  | detail
  | raw
  | log
  deriving DecidableEq, Repr

def ConnectionResource.suffix : ConnectionResource → Text
  | .detail => []
  | .raw => "/raw".toList
  | .log => "/log".toList

/-- `ResourceUriKind`; the three kinds of a connection are one constructor. -/
inductive ResourceUriKind where
  | ports
  | connectionsList
  /-- `ConnectionDetail`, `ConnectionDetailRaw` and `ConnectionLog` -/
  | connection (resource : ConnectionResource) (id : Text)
  | unknown
  deriving DecidableEq, Repr

/-- An id behind the prefix, with a suffix that is looked for. -/
def suffixedId (resource : ConnectionResource) (rest : Text) : Option ResourceUriKind :=
  match strippedBack resource.suffix rest with
  | some id => if id ≠ [] ∧ '/' ∉ id then some (.connection resource id) else none
  | none => none

/-- `parse_resource_uri` -/
def parseResourceUri (uri : Text) : ResourceUriKind :=
  if uri = uriPorts then .ports
  else if uri = uriConnections then .connectionsList
  else match strippedFront uriConnectionFront uri with
    | some rest =>
      if rest = [] then .unknown
      else match suffixedId .raw rest, suffixedId .log rest with
        | some kind, _ => kind
        | none, some kind => kind
        | none, none => if '/' ∈ rest then .unknown else .connection .detail rest
    | none => .unknown

/-! ## Connection ids -/

/-- `valid_connection_id` -/
def validConnectionId (connectionId : Text) : Bool :=
  connectionId ≠ [] ∧ '/' ∉ connectionId ∧ '{' ∉ connectionId ∧ '}' ∉ connectionId

/-- `connection_uri`: the URI, if the parser gives the id back. -/
def connectionUri (connectionId : Text) (resource : ConnectionResource) : Option Text :=
  let uri := uriConnectionFront ++ connectionId ++ resource.suffix
  if validConnectionId connectionId then
    if parseResourceUri uri = .connection resource connectionId then some uri else none
  else none

/-- `detail_uri` -/
def detailUri (connectionId : Text) : Option Text := connectionUri connectionId .detail

/-- `raw_uri` -/
def rawUri (connectionId : Text) : Option Text := connectionUri connectionId .raw

/-- `log_uri` -/
def logUri (connectionId : Text) : Option Text := connectionUri connectionId .log

/-- `is_subscribable_uri` -/
def isSubscribableUri (uri : Text) : Bool :=
  match parseResourceUri uri with
  | .ports | .connectionsList => true
  | .connection .detail id => (detailUri id).isSome
  | .connection .raw id => (rawUri id).isSome
  | .connection .log id => (logUri id).isSome
  | .unknown => false

/-! ## What is published -/

/-- `publish_connection_detail_changed`, `publish_connection_raw_changed` and
    `publish_connection_log_changed`. -/
def publishConnectionResourceChanged (connectionId : Text) (resource : ConnectionResource) :
    List Text := (connectionUri connectionId resource).toList

/-- `publish_connection_changed` -/
def publishConnectionChanged (connectionId : Text) : List Text :=
  publishConnectionResourceChanged connectionId .detail ++
    publishConnectionResourceChanged connectionId .raw ++
    publishConnectionResourceChanged connectionId .log

/-- A typed call that publishes a hint; the program makes no other, and `publish_updated` only
    through these. -/
inductive Publish where
  | portsChanged
  | connectionsChanged
  | connectionResourceChanged (connectionId : Text) (resource : ConnectionResource)
  | connectionChanged (connectionId : Text)

/-- The URIs that it publishes. -/
def Publish.uris : Publish → List Text
  | .portsChanged => [uriPorts]
  | .connectionsChanged => [uriConnections]
  | .connectionResourceChanged id resource => publishConnectionResourceChanged id resource
  | .connectionChanged id => publishConnectionChanged id

/-! ## Parsing -/

section
variable {uri id id' rest front s : Text} {resource resource' : ConnectionResource}

theorem strippedFront_eq_some : strippedFront front s = some rest ↔ s = front ++ rest := by
  rw [strippedFront]
  split_ifs with h
  · obtain ⟨t, rfl⟩ := List.isPrefixOf_iff_prefix.1 h
    simp
  · refine iff_of_false (by simp) ?_
    rintro rfl
    exact h (List.isPrefixOf_iff_prefix.2 (List.prefix_append front rest))

theorem strippedBack_eq_some {back : Text} : strippedBack back s = some rest ↔ s = rest ++ back := by
  rw [strippedBack]
  split_ifs with h
  · obtain ⟨t, rfl⟩ := List.isSuffixOf_iff_suffix.1 h
    simp
  · refine iff_of_false (by simp) ?_
    rintro rfl
    exact h (List.isSuffixOf_iff_suffix.2 (List.suffix_append rest back))

/-- An id is found before its suffix, if it has no slash. -/
theorem suffixedId_eq_some {kind : ResourceUriKind} : suffixedId resource rest = some kind ↔
    ∃ id, rest = id ++ resource.suffix ∧ id ≠ [] ∧ '/' ∉ id ∧ kind = .connection resource id := by
  rw [suffixedId]
  constructor
  · intro h
    split at h
    · rename_i id hid
      split_ifs at h with hvalid
      cases h
      exact ⟨id, strippedBack_eq_some.1 hid, hvalid.1, hvalid.2, rfl⟩
    · cases h
  · rintro ⟨id, hrest, hne, hslash, rfl⟩
    rw [strippedBack_eq_some.2 hrest]
    exact if_pos ⟨hne, hslash⟩

/-- The text before the first slash, and what follows it, are unique. -/
theorem append_suffix_inj (hid : '/' ∉ id) (hid' : '/' ∉ id')
    (h : id ++ resource.suffix = id' ++ resource'.suffix) : id = id' ∧ resource = resource' := by
  have hcut : ∀ (id : Text) (resource : ConnectionResource), '/' ∉ id →
      (id ++ resource.suffix).takeWhile (· ≠ '/') = id := by
    intro id resource hid
    have hall : ∀ c ∈ id, decide (c ≠ '/') = true := by
      intro c hc
      exact decide_eq_true fun heq => hid (heq ▸ hc)
    rw [List.takeWhile_append_of_pos hall]
    cases resource <;> simp [ConnectionResource.suffix]
  obtain rfl : id = id' := by rw [← hcut id resource hid, h, hcut id' resource' hid']
  refine ⟨rfl, ?_⟩
  have hsuffix := List.append_cancel_left h
  revert hsuffix
  cases resource <;> cases resource' <;> decide

theorem uriPorts_length : uriPorts.length = 14 := rfl

theorem uriConnections_length : uriConnections.length = 20 := rfl

theorem uriConnectionFront_length : uriConnectionFront.length = 21 := rfl

theorem parseResourceUri_connection (hne : id ≠ []) (hslash : '/' ∉ id) :
    parseResourceUri (uriConnectionFront ++ id ++ resource.suffix) = .connection resource id := by
  have hlong : 21 < (uriConnectionFront ++ id ++ resource.suffix).length := by
    have hid := List.length_pos_iff.2 hne
    rw [List.length_append, List.length_append, uriConnectionFront_length]
    omega
  have hports : uriConnectionFront ++ id ++ resource.suffix ≠ uriPorts := by
    intro h
    rw [h, uriPorts_length] at hlong
    omega
  have hlist : uriConnectionFront ++ id ++ resource.suffix ≠ uriConnections := by
    intro h
    rw [h, uriConnections_length] at hlong
    omega
  have hrest : id ++ resource.suffix ≠ [] := by simp [hne]
  have hother : ∀ resource', resource' ≠ resource →
      suffixedId resource' (id ++ resource.suffix) = none := by
    intro resource' hdiff
    rw [Option.eq_none_iff_forall_ne_some]
    intro kind hkind
    obtain ⟨id', hid', -, hslash', -⟩ := suffixedId_eq_some.1 hkind
    exact hdiff (append_suffix_inj hslash hslash' hid').2.symm
  have hown : suffixedId resource (id ++ resource.suffix) = some (.connection resource id) :=
    suffixedId_eq_some.2 ⟨id, rfl, hne, hslash, rfl⟩
  have hstrip : strippedFront uriConnectionFront (uriConnectionFront ++ id ++ resource.suffix) =
      some (id ++ resource.suffix) := by
    rw [List.append_assoc]
    exact strippedFront_eq_some.2 rfl
  rw [parseResourceUri, if_neg hports, if_neg hlist, hstrip]
  dsimp only
  rw [if_neg hrest]
  cases resource with
  | detail =>
    rw [hother .raw (by decide), hother .log (by decide)]
    dsimp only
    rw [ConnectionResource.suffix, List.append_nil, if_neg hslash]
  | raw =>
    rw [hown]
  | log =>
    rw [hother .raw (by decide), hown]

/-- **Nothing is normalised**: what a URI stands for determines it. -/
theorem parseResourceUri_eq (uri : Text) : match parseResourceUri uri with
    | .ports => uri = uriPorts
    | .connectionsList => uri = uriConnections
    | .connection resource id =>
      id ≠ [] ∧ '/' ∉ id ∧ uri = uriConnectionFront ++ id ++ resource.suffix
    | .unknown => True := by
  rw [parseResourceUri]
  split_ifs with hports hlist
  · exact hports
  · exact hlist
  · rcases hstrip : strippedFront uriConnectionFront uri with _ | rest
    · trivial
    · have huri := strippedFront_eq_some.1 hstrip
      have hfound : ∀ {resource kind}, suffixedId resource rest = some kind →
          ∃ id, kind = .connection resource id ∧ id ≠ [] ∧ '/' ∉ id ∧
            uri = uriConnectionFront ++ id ++ resource.suffix := by
        intro resource kind hkind
        obtain ⟨id, hid, hne, hslash, rfl⟩ := suffixedId_eq_some.1 hkind
        exact ⟨id, rfl, hne, hslash, by rw [huri, hid, List.append_assoc]⟩
      by_cases hrest : rest = []
      · simp only [hrest, if_true]
      · rcases hraw : suffixedId .raw rest with _ | kind
        · rcases hlog : suffixedId .log rest with _ | kind
          · by_cases hslash : '/' ∈ rest
            · simp only [hrest, if_false, hraw, hlog, hslash, if_true]
            · simp only [hrest, if_false, hraw, hlog, hslash]
              exact ⟨hrest, id, by simp [huri, ConnectionResource.suffix]⟩
          · obtain ⟨id, rfl, hid⟩ := hfound hlog
            simp only [hrest, if_false, hraw, hlog]
            exact hid
        · obtain ⟨id, rfl, hid⟩ := hfound hraw
          simp only [hrest, if_false, hraw]
          exact hid

end

/-! ## Published and subscribable -/

section
variable {uri id id' : Text} {resource resource' : ConnectionResource}

theorem validConnectionId_iff : validConnectionId id = true ↔
    id ≠ [] ∧ '/' ∉ id ∧ '{' ∉ id ∧ '}' ∉ id := by
  rw [validConnectionId, decide_eq_true_iff]

theorem connectionUri_eq_some : connectionUri id resource = some uri ↔
    validConnectionId id = true ∧ uri = uriConnectionFront ++ id ++ resource.suffix := by
  rw [connectionUri]
  by_cases hvalid : validConnectionId id = true
  · obtain ⟨hne, hslash, -⟩ := validConnectionId_iff.1 hvalid
    have hparse : parseResourceUri (uriConnectionFront ++ id ++ resource.suffix) =
        .connection resource id := parseResourceUri_connection hne hslash
    rw [if_pos hvalid, if_pos hparse, Option.some_inj]
    constructor
    · intro h
      exact ⟨hvalid, h.symm⟩
    · intro h
      exact h.2.symm
  · rw [if_neg hvalid]
    exact iff_of_false (by simp) fun h => hvalid h.1

theorem connectionUri_isSome : (connectionUri id resource).isSome = validConnectionId id := by
  rw [Bool.eq_iff_iff, Option.isSome_iff_exists]
  constructor
  · rintro ⟨uri, h⟩
    exact (connectionUri_eq_some.1 h).1
  · intro h
    exact ⟨_, connectionUri_eq_some.2 ⟨h, rfl⟩⟩

theorem connectionUri_inj (h : connectionUri id resource = some uri)
    (h' : connectionUri id' resource' = some uri) : id = id' ∧ resource = resource' := by
  obtain ⟨hvalid, rfl⟩ := connectionUri_eq_some.1 h
  obtain ⟨hvalid', huri⟩ := connectionUri_eq_some.1 h'
  obtain ⟨-, hslash, -⟩ := validConnectionId_iff.1 hvalid
  obtain ⟨-, hslash', -⟩ := validConnectionId_iff.1 hvalid'
  rw [List.append_assoc, List.append_assoc] at huri
  exact append_suffix_inj hslash hslash' (List.append_cancel_left huri)

theorem mem_publish : uri ∈ publishConnectionResourceChanged id resource ↔
    connectionUri id resource = some uri := Option.mem_toList

theorem mem_publishConnectionChanged : uri ∈ publishConnectionChanged id ↔
    ∃ resource, connectionUri id resource = some uri := by
  simp only [publishConnectionChanged, List.mem_append, mem_publish]
  constructor
  · rintro ((h | h) | h)
    · exact ⟨.detail, h⟩
    · exact ⟨.raw, h⟩
    · exact ⟨.log, h⟩
  · rintro ⟨resource, h⟩
    cases resource with
    | detail => exact .inl (.inl h)
    | raw => exact .inl (.inr h)
    | log => exact .inr h

theorem isSubscribableUri_connection (h : parseResourceUri uri = .connection resource id) :
    isSubscribableUri uri = validConnectionId id := by
  rw [isSubscribableUri, h]
  cases resource with
  | detail => exact connectionUri_isSome
  | raw => exact connectionUri_isSome
  | log => exact connectionUri_isSome

theorem parseResourceUri_uriPorts : parseResourceUri uriPorts = .ports := if_pos rfl

theorem parseResourceUri_uriConnections : parseResourceUri uriConnections = .connectionsList := by
  have hne : uriConnections ≠ uriPorts := by
    intro h
    have hlen := congrArg List.length h
    rw [uriConnections_length, uriPorts_length] at hlen
    cases hlen
  rw [parseResourceUri, if_neg hne, if_pos rfl]

theorem isSubscribableUri_publish {p : Publish} (h : uri ∈ p.uris) :
    isSubscribableUri uri = true := by
  have hconnection : ∀ {id resource}, connectionUri id resource = some uri →
      isSubscribableUri uri = true := by
    intro id resource huri
    obtain ⟨hvalid, rfl⟩ := connectionUri_eq_some.1 huri
    obtain ⟨hne, hslash, -⟩ := validConnectionId_iff.1 hvalid
    rw [isSubscribableUri_connection (parseResourceUri_connection hne hslash)]
    exact hvalid
  cases p with
  | portsChanged =>
    obtain rfl := List.mem_singleton.1 h
    rw [isSubscribableUri, parseResourceUri_uriPorts]
  | connectionsChanged =>
    obtain rfl := List.mem_singleton.1 h
    rw [isSubscribableUri, parseResourceUri_uriConnections]
  | connectionResourceChanged id resource => exact hconnection (mem_publish.1 h)
  | connectionChanged id =>
    obtain ⟨resource, huri⟩ := mem_publishConnectionChanged.1 h
    exact hconnection huri

theorem isSubscribableUri_iff : isSubscribableUri uri = true ↔ ∃ p : Publish, uri ∈ p.uris := by
  refine ⟨fun h => ?_, fun ⟨p, hp⟩ => isSubscribableUri_publish hp⟩
  have heq := parseResourceUri_eq uri
  rcases hparse : parseResourceUri uri with _ | _ | ⟨resource, id⟩ | _
  · rw [hparse] at heq
    exact ⟨.portsChanged, List.mem_singleton.2 heq⟩
  · rw [hparse] at heq
    exact ⟨.connectionsChanged, List.mem_singleton.2 heq⟩
  · rw [hparse] at heq
    rw [isSubscribableUri_connection hparse] at h
    exact ⟨.connectionResourceChanged id resource,
      mem_publish.2 (connectionUri_eq_some.2 ⟨h, heq.2.2⟩)⟩
  · rw [isSubscribableUri, hparse] at h
    cases h

/-- **Subscribable is what is published**, by some typed call of the hub; and a URI that is
    published for a connection is that of no other. -/
theorem subscribable_iff (uri : Text) :
    (isSubscribableUri uri = true ↔ ∃ p : Publish, uri ∈ p.uris) ∧
      ∀ id id', uri ∈ publishConnectionChanged id → uri ∈ publishConnectionChanged id' →
        id = id' := by
  refine ⟨isSubscribableUri_iff, fun id id' h h' => ?_⟩
  obtain ⟨resource, huri⟩ := mem_publishConnectionChanged.1 h
  obtain ⟨resource', huri'⟩ := mem_publishConnectionChanged.1 h'
  exact (connectionUri_inj huri huri').1

end

/-! ## Accepted subscriptions -/

open Listen (dedupe mem_dedupe dedupe_pairwise dedupe_filter)

/-- The loop of `accepted_subscription_filter`. -/
def acceptedLoop (seen : List Text) : List Text → List Text
  | [] => []
  | uri :: uris =>
    if isSubscribableUri uri && !seen.contains uri then uri :: acceptedLoop (uri :: seen) uris
    else acceptedLoop seen uris

/-- `accepted_subscription_filter`: the URIs that are accepted of a request. -/
def acceptedSubscriptionFilter (resourceSubscriptions : Option (List Text)) : List Text :=
  acceptedLoop [] (resourceSubscriptions.getD [])

/-- `context.accepted()`: rmcp intersects the requested list with the filter and with what is
    advertised, and so keeps repetitions. -/
def echoed (advertised : Text → Bool) (resourceSubscriptions : Option (List Text)) : List Text :=
  (resourceSubscriptions.getD []).filter fun uri =>
    advertised uri && (acceptedSubscriptionFilter resourceSubscriptions).contains uri

section
variable {seen uris : List Text} {uri : Text} {requested : Option (List Text)}

theorem acceptedLoop_eq : acceptedLoop seen uris = dedupe seen (uris.filter isSubscribableUri) := by
  induction uris generalizing seen with
  | nil => rfl
  | cons uri uris ih =>
    rw [acceptedLoop]
    by_cases hsub : isSubscribableUri uri = true
    · rw [List.filter_cons_of_pos hsub, dedupe]
      by_cases hseen : uri ∈ seen
      · rw [if_neg (by simp [hseen]), if_pos hseen, ih]
      · rw [if_pos (by simp [hsub, hseen]), if_neg hseen, ih]
    · rw [List.filter_cons_of_neg hsub, if_neg (by simp [hsub]), ih]

end

/-- Templates, empty ids and other schemes are not accepted, a duplicate is accepted once. -/
example : acceptedSubscriptionFilter (some [uriPorts, "serial://connections/a/raw".toList, uriPorts,
    "serial://connections/{id}".toList, "serial://connections/".toList, "x".toList]) =
    [uriPorts, "serial://connections/a/raw".toList] := by decide +kernel

end SerialMcp.Resources
