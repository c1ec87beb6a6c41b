import Silent.HeaderText
import Silent.NetText
import Silent.Utf8Text

/-! The address of the peer of a request, kept as the text of its header `x-real-ip`: how
`set_remote` chooses it, how it is printed there, and how `remote` reads it back. -/
namespace Silent.RemoteAddress
open ByteText HeaderText NetText

/- `std::os::unix::net`; `sunPath` is the size of the system's `sun_path`. -/
structure Unix where
  sunPath : Nat
  room : 9 < sunPath

inductive UnixAddr where
  | pathname (path : List UInt8)
  | unnamed
  | abstractName (name : List UInt8)
  deriving DecidableEq

def UnixAddr.asPathname : UnixAddr → Option (List UInt8)
  | .pathname path => some path
  | _ => none

def fromPathname (unix : Unix) (s : Text) : Option UnixAddr :=
  let bytes := Utf8Text.encode s
  if 0 ∈ bytes then none
  else if unix.sunPath ≤ bytes.length then none
  else some (if bytes = [] then .unnamed else .pathname bytes)

inductive SocketAddr where
  | tcp (addr : NetText.SocketAddr)
  | tlsTcp (addr : NetText.SocketAddr)
  | unix (addr : UnixAddr)
  deriving DecidableEq

inductive RemoteAddr where
  | socket (addr : SocketAddr)
  | ipv4 (ip : Ipv4Addr)
  | ipv6 (ip : Ipv6Addr)
  deriving DecidableEq

inductive IpAddr where
  | v4 (ip : Ipv4Addr)
  | v6 (ip : Ipv6Addr)
  deriving DecidableEq

def socketIp : NetText.SocketAddr → IpAddr
  | .v4 addr => .v4 addr.ip
  | .v6 addr => .v6 addr.ip

def RemoteAddr.ip : RemoteAddr → Option IpAddr
  | .socket (.tcp addr) => some (socketIp addr)
  | .socket (.tlsTcp addr) => some (socketIp addr)
  | .socket (.unix _) => none
  | .ipv4 ip => some (.v4 ip)
  | .ipv6 ip => some (.v6 ip)

def SocketAddr.display : SocketAddr → Text
  | .tcp addr => showSocketAddr addr
  | .tlsTcp addr => showSocketAddr addr
  | .unix addr =>
      match addr.asPathname with
      | some path => Utf8Text.lossy path
      | none => "(unnamed)".toList

def RemoteAddr.display : RemoteAddr → Text
  | .socket addr => addr.display
  | .ipv4 ip => showIpv4 ip
  | .ipv6 ip => showIpv6 ip

def RemoteAddr.fromStr (platform : Option Unix) (s : Text) : Option RemoteAddr :=
  match parseSocketAddr s with
  | some sock => some (.socket (.tcp sock))
  | none =>
      match parseIpv4Addr s with
      | some ip => some (.ipv4 ip)
      | none =>
          match parseIpv6Addr s with
          | some ip => some (.ipv6 ip)
          | none =>
              match platform with
              | some unix => (fromPathname unix s).map fun addr => .socket (.unix addr)
              | none => none

/- `http::HeaderValue`, with the characters that the text of a header may hold. -/
structure HeaderValues where
  Value : Type
  fromStr : Text → Option Value
  toStr : Value → Option Text
  mayStand : Char → Bool

structure HeaderValues.Lawful (http : HeaderValues) : Prop where
  visible : ∀ c, ' ' ≤ c → c ≤ '~' → http.mayStand c = true
  ascii : ∀ c, http.mayStand c = true → ' ' ≤ c ∧ c ≤ '~' ∨ c = '\t'
  carries : ∀ s, (∀ c ∈ s, http.mayStand c = true) → ∃ value, http.fromStr s = some value ∧ http.toStr value = some s
  faithful : ∀ s t value, http.fromStr s = some value → http.toStr value = some t → t = s
  shows : ∀ value s, http.toStr value = some s → ∀ c ∈ s, http.mayStand c = true

structure Headers (http : HeaderValues) where
  xRealIp : Option http.Value
  xForwardedFor : Option http.Value

section
variable (platform : Option Unix) {http : HeaderValues}

def realAddr (headers : Headers http) : Option RemoteAddr :=
  (headers.xRealIp.bind http.toStr).bind (RemoteAddr.fromStr platform)

def elements (value : Text) : List Text := (value.splitOn ',').map trim

def firstElement (value : Text) : Option Text := (elements value).find? (· ≠ [])

def forwardedAddr (headers : Headers http) : Option RemoteAddr :=
  ((headers.xForwardedFor.bind http.toStr).bind firstElement).bind (RemoteAddr.fromStr platform)

-- `none` is a panic.
def writeRealIp (headers : Headers http) (text : Text) : Option (Headers http) :=
  (http.fromStr text).map fun value => {headers with xRealIp := some value}

def setRemote (headers : Headers http) (remoteAddr : RemoteAddr) : Option (Headers http) :=
  if (realAddr platform headers).isSome then some headers
  else
    match forwardedAddr platform headers with
    | some realFromForwarded => writeRealIp headers realFromForwarded.display
    | none => writeRealIp headers remoteAddr.display

def remote (headers : Headers http) : Option RemoteAddr := realAddr platform headers

def ipText (s : Text) : Option IpAddr :=
  ((parseSocketAddr s).map socketIp).or (((parseIpv4Addr s).map .v4).or ((parseIpv6Addr s).map .v6))

theorem fromStrIp {s : Text} {addr : RemoteAddr} (parsed : RemoteAddr.fromStr platform s = some addr) : addr.ip = ipText s := by
  unfold RemoteAddr.fromStr at parsed
  unfold ipText
  cases socket : parseSocketAddr s with
  | some sock =>
    rw [socket] at parsed
    cases parsed
    rfl
  | none =>
    rw [socket] at parsed
    cases v4 : parseIpv4Addr s with
    | some ip =>
      rw [v4] at parsed
      cases parsed
      rfl
    | none =>
      rw [v4] at parsed
      cases v6 : parseIpv6Addr s with
      | some ip =>
        rw [v6] at parsed
        cases parsed
        rfl
      | none =>
        rw [v6] at parsed
        cases platform with
        | none => cases parsed
        | some unix =>
          obtain ⟨path, _, rfl⟩ := Option.map_eq_some_iff.mp parsed
          rfl

theorem fromStrOfIp {s : Text} (isIp : (ipText s).isSome) : ∃ addr, RemoteAddr.fromStr platform s = some addr := by
  unfold ipText at isIp
  unfold RemoteAddr.fromStr
  cases socket : parseSocketAddr s with
  | some sock => exact ⟨_, rfl⟩
  | none =>
    cases v4 : parseIpv4Addr s with
    | some ip => exact ⟨_, rfl⟩
    | none =>
      cases v6 : parseIpv6Addr s with
      | some ip => exact ⟨_, rfl⟩
      | none =>
        rw [socket, v4, v6] at isIp
        cases isIp

theorem fromStrPath {s : Text} (notIp : ipText s = none) :
    RemoteAddr.fromStr platform s = (platform.bind (fromPathname · s)).map fun addr => .socket (.unix addr) := by
  unfold ipText at notIp
  unfold RemoteAddr.fromStr
  cases socket : parseSocketAddr s with
  | some sock =>
    rw [socket] at notIp
    cases notIp
  | none =>
    cases v4 : parseIpv4Addr s with
    | some ip =>
      rw [socket, v4] at notIp
      cases notIp
    | none =>
      cases v6 : parseIpv6Addr s with
      | some ip =>
        rw [socket, v4, v6] at notIp
        cases notIp
      | none => cases platform <;> rfl

def RemoteAddr.shown : RemoteAddr → RemoteAddr
  | .socket (.tcp addr) => .socket (.tcp addr.shown)
  | .socket (.tlsTcp addr) => .socket (.tcp addr.shown)
  | addr => addr

theorem socketIpShown (addr : NetText.SocketAddr) : socketIp addr.shown = socketIp addr := by
  cases addr <;> rfl

theorem ipShown (addr : RemoteAddr) : addr.shown.ip = addr.ip := by
  cases addr with
  | socket addr =>
    cases addr with
    | tcp addr | tlsTcp addr => exact congrArg some (socketIpShown addr)
    | unix addr => rfl
  | ipv4 ip | ipv6 ip => rfl

theorem displayParses {addr : RemoteAddr} (isIp : addr.ip.isSome) : RemoteAddr.fromStr platform addr.display = some addr.shown := by
  have socket : ∀ addr, RemoteAddr.fromStr platform (showSocketAddr addr) = some (.socket (.tcp addr.shown)) := by
    intro addr
    unfold RemoteAddr.fromStr
    rw [parseSocketShown]
  cases addr with
  | socket addr =>
    cases addr with
    | tcp addr | tlsTcp addr => exact socket addr
    | unix addr => cases isIp
  | ipv4 ip =>
    change RemoteAddr.fromStr platform (showIpv4 ip) = some (.ipv4 ip)
    unfold RemoteAddr.fromStr
    rw [ipv4NotSocket, parseIpv4Shown]
  | ipv6 ip =>
    change RemoteAddr.fromStr platform (showIpv6 ip) = some (.ipv6 ip)
    unfold RemoteAddr.fromStr
    rw [ipv6NotSocket, ipv6NotParsedIpv4, parseIpv6Shown]

theorem displayVisible {addr : RemoteAddr} (isIp : addr.ip.isSome) : ∀ c ∈ addr.display, ' ' ≤ c ∧ c ≤ '~' := by
  cases addr with
  | socket addr =>
    cases addr with
    | tcp addr | tlsTcp addr => exact socketVisible addr
    | unix addr => cases isIp
  | ipv4 ip => exact fun c among => ipCharVisible (ipv4Chars ip c among)
  | ipv6 ip => exact fun c among => ipCharVisible (ipv6Chars ip c among)

theorem fromPathnameIs {unix : Unix} {s : Text} {path : List UInt8} :
    fromPathname unix s = some (.pathname path) ↔
      Utf8Text.encode s = path ∧ s ≠ [] ∧ 0 ∉ path ∧ path.length < unix.sunPath := by
  have filled : Utf8Text.encode s = [] ↔ s = [] := ⟨fun empty => Utf8Text.encodeInj (t := []) empty, fun empty => by rw [empty]; rfl⟩
  unfold fromPathname
  dsimp only
  constructor
  · intro made
    split at made
    · cases made
    · rename_i noNul
      split at made
      · cases made
      · rename_i room
        rw [Option.some.injEq] at made
        split at made
        · cases made
        · rename_i some_
          cases made
          exact ⟨rfl, fun empty => some_ (filled.mpr empty), noNul, Nat.not_le.mp room⟩
  · rintro ⟨rfl, some_, noNul, room⟩
    rw [if_neg noNul, if_neg (Nat.not_le.mpr room), if_neg fun empty => some_ (filled.mp empty)]

theorem pathnameDisplay {unix : Unix} {s : Text} (some_ : s ≠ []) {addr : UnixAddr} (made : fromPathname unix s = some addr) :
    addr = .pathname (Utf8Text.encode s) ∧ (SocketAddr.unix addr).display = s := by
  have filled : Utf8Text.encode s ≠ [] := fun empty => some_ (Utf8Text.encodeInj (t := []) empty)
  simp only [fromPathname, filled, if_false] at made
  split at made
  · cases made
  · split at made
    · cases made
    · cases made
      exact ⟨rfl, Utf8Text.lossyEncode s⟩

theorem parsedAgain {s : Text} (some_ : s ≠ []) {addr : RemoteAddr} (parsed : RemoteAddr.fromStr platform s = some addr) :
    (addr.display = s ∨ ∀ c ∈ addr.display, ' ' ≤ c ∧ c ≤ '~') ∧
      RemoteAddr.fromStr platform addr.display = some addr.shown := by
  have same := fromStrIp platform parsed
  cases isIp : ipText s with
  | some ip =>
    have found : addr.ip.isSome := by rw [same, isIp]; rfl
    exact ⟨.inr (displayVisible found), displayParses platform found⟩
  | none =>
    have path := fromStrPath platform isIp
    rw [parsed] at path
    obtain ⟨unixAddr, made, rfl⟩ := Option.map_eq_some_iff.mp path.symm
    obtain ⟨unix, rfl, made⟩ := Option.bind_eq_some_iff.mp made
    have shown := (pathnameDisplay some_ made).2
    exact ⟨.inl shown, by rw [RemoteAddr.display, shown]; exact parsed⟩

def Comes (headers : Headers http) (peer : RemoteAddr) (P : RemoteAddr → Prop) : Prop :=
  ∃ later answer, setRemote platform headers peer = some later ∧ remote platform later = some answer ∧ P answer

theorem comesReal {headers : Headers http} {found : RemoteAddr} (real : realAddr platform headers = some found)
    (peer : RemoteAddr) (P : RemoteAddr → Prop) : Comes platform headers peer P ↔ P found := by
  have set : setRemote platform headers peer = some headers := if_pos (by rw [real]; rfl)
  constructor
  · rintro ⟨later, answer, same, read, holds⟩
    cases set.symm.trans same
    cases real.symm.trans read
    exact holds
  · exact fun holds => ⟨headers, found, set, real, holds⟩

section
variable (lawful : http.Lawful)
include lawful

theorem writeReads (headers : Headers http) (text : Text) (P : RemoteAddr → Prop) :
    (∃ later answer, writeRealIp headers text = some later ∧ remote platform later = some answer ∧ P answer) ↔
      (∀ c ∈ text, http.mayStand c = true) ∧ ∃ answer, RemoteAddr.fromStr platform text = some answer ∧ P answer := by
  constructor
  · rintro ⟨later, answer, written, read, holds⟩
    obtain ⟨value, made, rfl⟩ := Option.map_eq_some_iff.mp written
    obtain ⟨shown, back, parsed⟩ := Option.bind_eq_some_iff.mp read
    obtain rfl := lawful.faithful text shown value made back
    exact ⟨lawful.shows value shown back, answer, parsed, holds⟩
  · rintro ⟨stands, answer, parsed, holds⟩
    obtain ⟨value, made, back⟩ := lawful.carries text stands
    refine ⟨_, answer, congrArg (Option.map _) made, ?_, holds⟩
    change (http.toStr value).bind (RemoteAddr.fromStr platform) = some answer
    rw [back]
    exact parsed

theorem visibleStands {s : Text} (visible : ∀ c ∈ s, ' ' ≤ c ∧ c ≤ '~') : ∀ c ∈ s, http.mayStand c = true :=
  fun c among => lawful.visible c (visible c among).1 (visible c among).2

theorem firstElementChars {value : http.Value} {shown element : Text} (read : http.toStr value = some shown)
    (first : firstElement shown = some element) : element ≠ [] ∧ ∀ c ∈ element, http.mayStand c = true := by
  refine ⟨by simpa using List.find?_some first, fun c among => lawful.shows value shown read c ?_⟩
  obtain ⟨part, listed, rfl⟩ := List.mem_map.mp (List.mem_of_find?_eq_some first)
  exact (splitPart _ shown part listed c ((List.dropWhile_suffix _).subset ((List.rdropWhile_prefix _ _).subset among))).2

theorem comesForwarded {headers : Headers http} (unreal : realAddr platform headers = none) {found : RemoteAddr}
    (forwarded : forwardedAddr platform headers = some found) (peer : RemoteAddr) (P : RemoteAddr → Prop) :
    Comes platform headers peer P ↔ P found.shown := by
  have set : setRemote platform headers peer = writeRealIp headers found.display := by
    unfold setRemote
    rw [unreal, forwarded]
    rfl
  obtain ⟨element, first, parsed⟩ := Option.bind_eq_some_iff.mp forwarded
  obtain ⟨shown, read, first⟩ := Option.bind_eq_some_iff.mp first
  obtain ⟨value, _, read⟩ := Option.bind_eq_some_iff.mp read
  obtain ⟨some_, stands⟩ := firstElementChars lawful read first
  obtain ⟨chars, again⟩ := parsedAgain platform some_ parsed
  have printed : ∀ c ∈ found.display, http.mayStand c = true := by
    rcases chars with same | visible
    · rwa [same]
    · exact visibleStands lawful visible
  unfold Comes
  rw [set, writeReads platform lawful]
  constructor
  · rintro ⟨_, answer, same, holds⟩
    cases again.symm.trans same
    exact holds
  · exact fun holds => ⟨printed, _, again, holds⟩

theorem comesPeer {headers : Headers http} (unreal : realAddr platform headers = none)
    (unforwarded : forwardedAddr platform headers = none) (peer : RemoteAddr) (P : RemoteAddr → Prop) :
    Comes platform headers peer P ↔ (∀ c ∈ peer.display, http.mayStand c = true) ∧
      ∃ answer, RemoteAddr.fromStr platform peer.display = some answer ∧ P answer := by
  have set : setRemote platform headers peer = writeRealIp headers peer.display := by
    unfold setRemote
    rw [unreal, unforwarded]
    rfl
  unfold Comes
  rw [set, writeReads platform lawful]

theorem comesIpPeer {headers : Headers http} (unreal : realAddr platform headers = none)
    (unforwarded : forwardedAddr platform headers = none) {peer : RemoteAddr} (isIp : peer.ip.isSome) (P : RemoteAddr → Prop) :
    Comes platform headers peer P ↔ P peer.shown := by
  rw [comesPeer platform lawful unreal unforwarded]
  constructor
  · rintro ⟨_, answer, same, holds⟩
    cases (displayParses platform isIp).symm.trans same
    exact holds
  · exact fun holds => ⟨visibleStands lawful (displayVisible isIp), _, displayParses platform isIp, holds⟩

end

end

end Silent.RemoteAddress
