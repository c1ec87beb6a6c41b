import Mathlib.Data.List.Nodup
import Silent.ByteText

/-! `CookieJar` as the cookie crate documents it: the cookies a jar started with, and the
additions and removals made since, each a set with one cookie to a name. Sets are lists
here; nothing below depends on the order. -/
namespace Silent.Cookies
open ByteText

-- `others` stands for path, domain and the remaining attributes.
structure Cookie where
  name : Text
  value : Text
  maxAge : Option Int
  expires : Option Int
  secure : Option Bool
  others : Text
  deriving DecidableEq

def Cookie.makeRemoval (now : Int) (self : Cookie) : Cookie :=
  {self with value := [], maxAge := some 0, expires := some (now - 31536000)}

structure DeltaCookie where
  cookie : Cookie
  removed : Bool
  deriving DecidableEq

def DeltaCookie.name (self : DeltaCookie) : Text := self.cookie.name

section
variable {A : Type} (name : A → Text)

def drop (set : List A) (key : Text) : List A := set.filter (fun a => name a ≠ key)

def replace (set : List A) (a : A) : List A := drop name set (name a) ++ [a]

theorem dropDistinct {set : List A} (distinct : (set.map name).Nodup) (key : Text) : ((drop name set key).map name).Nodup :=
  distinct.sublist (List.filter_sublist.map _)

theorem memDrop {set : List A} {key : Text} {a : A} : a ∈ drop name set key ↔ a ∈ set ∧ name a ≠ key := by
  simp [drop]

theorem memReplace {set : List A} {a b : A} : b ∈ replace name set a ↔ b = a ∨ b ∈ set ∧ name b ≠ name a := by
  simp [replace, memDrop, or_comm]

theorem replaceDistinct {set : List A} (distinct : (set.map name).Nodup) (a : A) : ((replace name set a).map name).Nodup := by
  rw [replace, List.map_append, List.map_singleton]
  refine (dropDistinct name distinct (name a)).append (List.nodup_singleton _) fun key listed added => ?_
  obtain ⟨other, among, same⟩ := List.mem_map.mp listed
  exact ((memDrop name).mp among).2 (same.trans (List.mem_singleton.mp added))

theorem findNamed {set : List A} (distinct : (set.map name).Nodup) {key : Text} {a : A} :
    set.find? (fun b => name b = key) = some a ↔ a ∈ set ∧ name a = key := by
  constructor
  · intro found
    exact ⟨List.mem_of_find?_eq_some found, by simpa using List.find?_some found⟩
  · rintro ⟨among, rfl⟩
    cases found : set.find? (fun b => name b = name a) with
    | none => simpa using List.find?_eq_none.mp found a among
    | some b =>
      have same : name b = name a := by simpa using List.find?_some found
      rw [List.inj_on_of_nodup_map distinct (List.mem_of_find?_eq_some found) among same]

theorem sameName {set : List A} (distinct : (set.map name).Nodup) {a b : A} (left : a ∈ set) (right : b ∈ set)
    (same : name a = name b) : a = b :=
  List.inj_on_of_nodup_map distinct left right same

end

structure CookieJar where
  original : List Cookie
  delta : List DeltaCookie
  originalDistinct : (original.map Cookie.name).Nodup
  deltaDistinct : (delta.map DeltaCookie.name).Nodup

namespace CookieJar

def new : CookieJar := ⟨[], [], List.nodup_nil, List.nodup_nil⟩

def addOriginal (self : CookieJar) (cookie : Cookie) : CookieJar :=
  {self with
    original := replace Cookie.name self.original cookie
    originalDistinct := replaceDistinct Cookie.name self.originalDistinct cookie}

def put (self : CookieJar) (entry : DeltaCookie) : CookieJar :=
  {self with
    delta := replace DeltaCookie.name self.delta entry
    deltaDistinct := replaceDistinct DeltaCookie.name self.deltaDistinct entry}

def add (self : CookieJar) (cookie : Cookie) : CookieJar := self.put ⟨cookie, false⟩

def remove (now : Int) (self : CookieJar) (cookie : Cookie) : CookieJar :=
  if self.original.any (fun c => c.name = cookie.name) then self.put ⟨cookie.makeRemoval now, true⟩
  else {self with
    delta := drop DeltaCookie.name self.delta cookie.name
    deltaDistinct := dropDistinct DeltaCookie.name self.deltaDistinct cookie.name}

def get (self : CookieJar) (name : Text) : Option Cookie :=
  match self.delta.find? (fun d => d.name = name) with
  | some entry => if entry.removed then none else some entry.cookie
  | none => self.original.find? (fun c => c.name = name)

def touched (self : CookieJar) (name : Text) : Bool := self.delta.any (fun d => d.name = name)

def iter (self : CookieJar) : List Cookie :=
  (self.delta.filter (fun d => !d.removed)).map DeltaCookie.cookie ++ self.original.filter (fun c => !self.touched c.name)

def addAll (self : CookieJar) (cookies : List Cookie) : CookieJar := cookies.foldl add self

end CookieJar

section
variable {jar : CookieJar}

theorem memAdd {cookie : Cookie} {entry : DeltaCookie} :
    entry ∈ (jar.add cookie).delta ↔ entry = ⟨cookie, false⟩ ∨ entry ∈ jar.delta ∧ entry.name ≠ cookie.name :=
  memReplace DeltaCookie.name

theorem memAddAll {cookies : List Cookie} (distinct : (cookies.map Cookie.name).Nodup) {entry : DeltaCookie} :
    entry ∈ (jar.addAll cookies).delta ↔
      (entry.removed = false ∧ entry.cookie ∈ cookies) ∨ entry ∈ jar.delta ∧ ∀ cookie ∈ cookies, entry.name ≠ cookie.name := by
  induction cookies generalizing jar with
  | nil => simp [CookieJar.addAll]
  | cons cookie cookies ih =>
    rw [List.map_cons, List.nodup_cons] at distinct
    have next := @ih (jar.add cookie) distinct.2
    rw [CookieJar.addAll, List.foldl_cons, ← CookieJar.addAll, next, memAdd]
    have shape : entry = ⟨cookie, false⟩ ↔ entry.removed = false ∧ entry.cookie = cookie := by
      constructor
      · rintro rfl
        exact ⟨rfl, rfl⟩
      · rintro ⟨live, rfl⟩
        cases entry
        exact congrArg _ live
    have apart : entry.cookie = cookie → ∀ other ∈ cookies, entry.name ≠ other.name := fun same other among equal =>
      distinct.1 (List.mem_map.mpr ⟨other, among, equal.symm.trans (congrArg Cookie.name same)⟩)
    simp only [shape, List.mem_cons, forall_eq_or_imp]
    constructor
    · rintro (⟨live, later⟩ | ⟨⟨live, here⟩ | ⟨old, other⟩, rest⟩)
      · exact .inl ⟨live, .inr later⟩
      · exact .inl ⟨live, .inl here⟩
      · exact .inr ⟨old, other, rest⟩
    · rintro (⟨live, here | later⟩ | ⟨old, other, rest⟩)
      · exact .inr ⟨.inl ⟨live, here⟩, apart here⟩
      · exact .inl ⟨live, later⟩
      · exact .inr ⟨.inr ⟨old, other⟩, rest⟩

theorem touchedIff {name : Text} : jar.touched name = true ↔ ∃ entry ∈ jar.delta, entry.name = name := by
  simp [CookieJar.touched]

theorem memIter {cookie : Cookie} :
    cookie ∈ jar.iter ↔ (⟨cookie, false⟩ : DeltaCookie) ∈ jar.delta ∨ cookie ∈ jar.original ∧ jar.touched cookie.name = false := by
  simp only [CookieJar.iter, List.mem_append, List.mem_map, List.mem_filter, Bool.not_eq_true']
  refine or_congr ⟨?_, fun live => ⟨_, ⟨live, rfl⟩, rfl⟩⟩ Iff.rfl
  rintro ⟨⟨_, _⟩, ⟨among, rfl⟩, rfl⟩
  exact among

theorem iterDistinct : (jar.iter.map Cookie.name).Nodup := by
  rw [CookieJar.iter, List.map_append, List.map_map]
  refine List.Nodup.append (jar.deltaDistinct.sublist (List.filter_sublist.map _))
    (jar.originalDistinct.sublist (List.filter_sublist.map _)) fun name changed kept => ?_
  obtain ⟨entry, among, same⟩ := List.mem_map.mp changed
  obtain ⟨cookie, listed, rfl⟩ := List.mem_map.mp kept
  have untouched := (List.mem_filter.mp listed).2
  have touched : jar.touched cookie.name = true := touchedIff.mpr ⟨entry, (List.mem_filter.mp among).1, same⟩
  simp [touched] at untouched

theorem getIter {name : Text} {cookie : Cookie} : jar.get name = some cookie ↔ cookie ∈ jar.iter ∧ cookie.name = name := by
  rw [memIter, CookieJar.get]
  cases found : jar.delta.find? (fun d => d.name = name) with
  | some entry =>
    obtain ⟨among, same⟩ := (findNamed DeltaCookie.name jar.deltaDistinct).mp found
    have touched : jar.touched name = true := touchedIff.mpr ⟨entry, among, same⟩
    constructor
    · intro kept
      obtain ⟨inner, removed⟩ := entry
      cases removed with
      | true => cases kept
      | false =>
        cases kept
        exact ⟨.inl among, same⟩
    · rintro ⟨live | ⟨_, untouched⟩, named⟩
      · have equal := sameName DeltaCookie.name jar.deltaDistinct among live (same.trans named.symm)
        rw [equal]
        rfl
      · rw [named, touched] at untouched
        cases untouched
  | none =>
    have untouched : ∀ entry ∈ jar.delta, entry.name ≠ name := by simpa using found
    rw [findNamed Cookie.name jar.originalDistinct]
    constructor
    · rintro ⟨among, rfl⟩
      refine ⟨.inr ⟨among, ?_⟩, rfl⟩
      cases touched : jar.touched cookie.name with
      | false => rfl
      | true =>
        obtain ⟨entry, inside, same⟩ := touchedIff.mp touched
        exact absurd same (untouched entry inside)
    · rintro ⟨live | ⟨among, -⟩, named⟩
      · exact absurd named (untouched _ live)
      · exact ⟨among, named⟩

end

end Silent.Cookies
