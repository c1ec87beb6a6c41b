import Mathlib.Data.List.DropRight
import Silent.ByteText

/-! Relative references of URLs. The path of a reference is merged with the path of the
base, and its dot segments are removed through an output and an input buffer; on the
segments of a path that is one pass from left to right. -/
namespace Silent.UrlReference
open ByteText

def current : Text := ['.']

def parent : Text := ['.', '.']

def removeLast (output : Text) : Text := (output.rdropWhile (· ≠ '/')).dropLast

def behindSegment (rest : Text) : Text := rest.dropWhile (· ≠ '/')

theorem behindSegmentLength (rest : Text) : (behindSegment rest).length ≤ rest.length :=
  (List.dropWhile_suffix _).length_le

def removeDots (output : Text) (input : Text) : Text :=
  match input with
  | [] => output
  | c :: rest =>
      if "../".toList <+: c :: rest then removeDots output (rest.drop 2)
      else if "./".toList <+: c :: rest then removeDots output (rest.drop 1)
      else if "/./".toList <+: c :: rest then removeDots output (rest.drop 1)
      else if c :: rest = "/.".toList then removeDots output ['/']
      else if "/../".toList <+: c :: rest then removeDots (removeLast output) (rest.drop 2)
      else if c :: rest = "/..".toList then removeDots (removeLast output) ['/']
      else if c :: rest = current ∨ c :: rest = parent then output
      else removeDots (output ++ c :: rest.takeWhile (· ≠ '/')) (behindSegment rest)
termination_by input.length
decreasing_by
  all_goals first
    | (have shorter := behindSegmentLength rest
       simp only [List.length_cons]
       omega)
    | (rename_i whole
       rw [whole]
       decide)
    | (simp only [List.length_cons, List.length_drop]
       omega)

def referencePath (reference : Text) : Text := reference.takeWhile fun c => c ≠ '?' && c ≠ '#'

def merge (base path : Text) : Text := base.rdropWhile (· ≠ '/') ++ path

def resolve (base reference : Text) : Text :=
  let path := referencePath reference
  if path = [] then base
  else if path.head? = some '/' then removeDots [] path
  else removeDots [] (merge base path)

def slashed (segs : List Text) : Text := segs.flatMap ('/' :: ·)

def isDot (seg : Text) : Prop := seg = current ∨ seg = parent

instance (seg : Text) : Decidable (isDot seg) := inferInstanceAs (Decidable (_ ∨ _))

/- The pass over the segments: a dot segment at the end leaves an empty one. -/
def cleaned (out : List Text) : List Text → List Text
  | [] => out
  | seg :: segs =>
      let kept := if seg = current then out else if seg = parent then out.dropLast else out ++ [seg]
      if segs = [] ∧ isDot seg then kept ++ [[]] else cleaned kept segs

theorem cleanedNext (out : List Text) (seg : Text) (segs : List Text) : cleaned out (seg :: segs) =
    if segs = [] ∧ isDot seg then (if seg = current then out else if seg = parent then out.dropLast else out ++ [seg]) ++ [[]]
    else cleaned (if seg = current then out else if seg = parent then out.dropLast else out ++ [seg]) segs :=
  rfl

def Slashless (segs : List Text) : Prop := ∀ seg ∈ segs, '/' ∉ seg

theorem nothingSlashless : Slashless [] := List.forall_mem_nil _

@[simp] theorem slashedAppend (s t : List Text) : slashed (s ++ t) = slashed s ++ slashed t := List.flatMap_append

@[simp] theorem slashedCons (seg : Text) (segs : List Text) : slashed (seg :: segs) = '/' :: (seg ++ slashed segs) :=
  List.flatMap_cons

theorem cutSegment (text : Text) {seg : Text} (own : '/' ∉ seg) : (text ++ '/' :: seg).rdropWhile (· ≠ '/') = text ++ ['/'] := by
  induction seg using List.reverseRecOn with
  | nil => exact List.rdropWhile_concat_neg _ _ _ (by simp)
  | append_singleton seg c ih =>
    have other : c ≠ '/' := fun same => own (by simp [same])
    have shape : text ++ '/' :: (seg ++ [c]) = (text ++ '/' :: seg) ++ [c] := by simp
    rw [shape, List.rdropWhile_concat_pos _ _ _ (by simpa using other)]
    exact ih fun inside => own (by simp [inside])

theorem slashedSnoc (segs : List Text) (seg : Text) : slashed (segs ++ [seg]) = slashed segs ++ '/' :: seg := by simp [slashed]

theorem removeLastSlashed {out : List Text} (plain : Slashless out) : removeLast (slashed out) = slashed out.dropLast := by
  rcases List.eq_nil_or_concat' out with rfl | ⟨out, seg, rfl⟩
  · rfl
  · have own : '/' ∉ seg := plain seg (by simp)
    rw [removeLast, slashedSnoc, cutSegment _ own, List.dropLast_concat, List.dropLast_concat]

def Ends (tail : Text) : Prop := tail = [] ∨ ∃ rest, tail = '/' :: rest

theorem slashedEnds (segs : List Text) : Ends (slashed segs) := by
  cases segs with
  | nil => exact .inl rfl
  | cons seg segs => exact .inr ⟨_, slashedCons seg segs⟩

theorem takeSegment {seg tail : Text} (plain : '/' ∉ seg) (ends : Ends tail) :
    (seg ++ tail).takeWhile (· ≠ '/') = seg ∧ behindSegment (seg ++ tail) = tail := by
  have inside : ∀ c ∈ seg, decide (c ≠ '/') = true := fun c among => by
    simpa using fun same : c = '/' => plain (same ▸ among)
  rw [behindSegment, List.takeWhile_append_of_pos inside, List.dropWhile_append_of_pos inside]
  rcases ends with rfl | ⟨rest, rfl⟩ <;> simp

theorem segmentIs {seg tail named rest : Text} (plain : '/' ∉ seg) (ends : Ends tail) (other : '/' ∉ named)
    (behind : Ends rest) (same : seg ++ tail = named ++ rest) : seg = named := by
  rw [← (takeSegment plain ends).1, same, (takeSegment other behind).1]

theorem removeDotsNil (output : Text) : removeDots output [] = output := by
  rw [removeDots]

theorem removeDotsSegment {output seg tail : Text} (plain : '/' ∉ seg) (ends : Ends tail) :
    removeDots output ('/' :: (seg ++ tail)) =
      if seg = current then removeDots output (if tail = [] then ['/'] else tail)
      else if seg = parent then removeDots (removeLast output) (if tail = [] then ['/'] else tail)
      else removeDots (output ++ '/' :: seg) tail := by
  have among : ∀ {named rest : Text}, '/' ∉ named → Ends rest → '/' :: (seg ++ tail) = '/' :: (named ++ rest) → seg = named :=
    fun other behind same => segmentIs plain ends other behind (List.cons.inj same).2
  have prefixed : ∀ {named : Text}, '/' ∉ named → '/' :: (named ++ ['/']) <+: '/' :: (seg ++ tail) → seg = named := by
    rintro named other ⟨rest, same⟩
    refine among other (.inr ⟨rest, rfl⟩) (same.symm.trans ?_)
    simp
  have up : ¬ "../".toList <+: '/' :: (seg ++ tail) := fun front => by
    obtain ⟨rest, same⟩ := front
    exact absurd (List.cons.inj same).1 (by decide)
  have here : ¬ "./".toList <+: '/' :: (seg ++ tail) := fun front => by
    obtain ⟨rest, same⟩ := front
    exact absurd (List.cons.inj same).1 (by decide)
  rw [removeDots, if_neg up, if_neg here]
  by_cases dot : seg = current
  · subst dot
    rw [if_pos rfl]
    rcases ends with rfl | ⟨rest, rfl⟩
    · rfl
    · rw [if_pos ⟨rest, rfl⟩]
      rfl
  · have notDot : ¬ "/./".toList <+: '/' :: (seg ++ tail) := fun front => dot (@prefixed current (by decide) front)
    have notOnly : '/' :: (seg ++ tail) ≠ "/.".toList := fun same => dot (@among current [] (by decide) (.inl rfl) same)
    rw [if_neg notDot, if_neg notOnly, if_neg dot]
    by_cases back : seg = parent
    · subst back
      rw [if_pos rfl]
      rcases ends with rfl | ⟨rest, rfl⟩
      · rfl
      · rw [if_pos ⟨rest, rfl⟩]
        rfl
    · have notBack : ¬ "/../".toList <+: '/' :: (seg ++ tail) := fun front => back (@prefixed parent (by decide) front)
      have notLast : '/' :: (seg ++ tail) ≠ "/..".toList := fun same => back (@among parent [] (by decide) (.inl rfl) same)
      have rooted : ¬('/' :: (seg ++ tail) = current ∨ '/' :: (seg ++ tail) = parent) := by
        rintro (same | same) <;> exact absurd (List.cons.inj same).1 (by decide)
      obtain ⟨taken, rest⟩ := takeSegment plain ends
      rw [if_neg notBack, if_neg notLast, if_neg rooted, if_neg back, taken, rest]

theorem removeDotsEmpty (output : Text) : removeDots output ['/'] = output ++ ['/'] := by
  have one := @removeDotsSegment output [] [] (by simp) (.inl rfl)
  rw [List.nil_append] at one
  rw [one, if_neg (by decide), if_neg (by decide), removeDotsNil]

theorem slashlessDrop {out : List Text} (plain : Slashless out) : Slashless out.dropLast :=
  fun seg among => plain seg (List.dropLast_subset _ among)

theorem slashlessSnoc {out : List Text} {seg : Text} (plain : Slashless out) (own : '/' ∉ seg) : Slashless (out ++ [seg]) := by
  intro other among
  rcases List.mem_append.mp among with early | last
  · exact plain other early
  · exact List.mem_singleton.mp last ▸ own

theorem removeDotsSlashed {out segs : List Text} (before : Slashless out) (plain : Slashless segs) :
    removeDots (slashed out) (slashed segs) = slashed (cleaned out segs) := by
  induction segs generalizing out with
  | nil => exact removeDotsNil _
  | cons seg segs ih =>
    have own : '/' ∉ seg := plain seg List.mem_cons_self
    have later : Slashless segs := fun other among => plain other (List.mem_cons_of_mem _ among)
    have blank : slashed segs = [] ↔ segs = [] := by cases segs <;> simp [slashed]
    have last (kept : List Text) : slashed (kept ++ [[]]) = slashed kept ++ ['/'] := slashedSnoc kept []
    rw [slashedCons, removeDotsSegment own (slashedEnds segs), cleanedNext]
    by_cases dot : seg = current
    · simp only [dot, if_true, blank, isDot, true_or, and_true]
      split
      · rw [removeDotsEmpty, last]
      · exact ih before later
    · by_cases back : seg = parent
      · have apart : parent ≠ current := by decide
        simp only [back, if_true, blank, isDot, or_true, and_true, removeLastSlashed before, if_neg apart]
        split
        · rw [removeDotsEmpty, last]
        · exact ih (slashlessDrop before) later
      · have shape := (slashedSnoc out seg).symm
        have plainSeg : ¬ isDot seg := not_or.mpr ⟨dot, back⟩
        rw [if_neg dot, if_neg back, if_neg dot, if_neg back, if_neg fun both => plainSeg both.2, shape]
        exact ih (slashlessSnoc before own) later

def spelt : List Text → Text
  | [] => []
  | seg :: segs => seg ++ slashed segs

theorem resolveSlashed {base reference : List Text} {last seg : Text} (before : Slashless base) (own : '/' ∉ last)
    (plain : Slashless (seg :: reference)) (occupied : seg ≠ []) (path : referencePath (spelt (seg :: reference)) = spelt (seg :: reference)) :
    resolve (slashed (base ++ [last])) (spelt (seg :: reference)) = slashed (cleaned [] (base ++ seg :: reference)) := by
  obtain ⟨c, cs, rfl⟩ := List.exists_cons_of_ne_nil occupied
  have other : c ≠ '/' := fun same => plain _ List.mem_cons_self (by simp [same])
  have relative : (spelt ((c :: cs) :: reference)).head? ≠ some '/' := by simpa [spelt] using other
  have cut : (slashed (base ++ [last])).rdropWhile (· ≠ '/') = slashed base ++ ['/'] := by rw [slashedSnoc, cutSegment _ own]
  have merged : merge (slashed (base ++ [last])) (spelt ((c :: cs) :: reference)) = slashed (base ++ (c :: cs) :: reference) := by
    rw [merge, cut, spelt, slashedAppend, slashedCons]
    simp
  have all : Slashless (base ++ (c :: cs) :: reference) := fun seg among =>
    (List.mem_append.mp among).elim (before seg) (plain seg)
  rw [resolve, path, if_neg (by simp [spelt]), if_neg relative, merged]
  exact removeDotsSlashed nothingSlashless all

theorem cleanedPlain {out segs back : List Text} (up : parent ∉ segs) (plain : ∀ seg ∈ back, ¬ isDot seg) (some_ : back ≠ []) :
    cleaned out (segs ++ back) = out ++ (segs.filter (· ≠ current) ++ back) := by
  induction segs generalizing out with
  | nil =>
    clear up some_
    rw [List.nil_append, List.filter_nil, List.nil_append]
    induction back generalizing out with
    | nil => exact (List.append_nil out).symm
    | cons seg back ih =>
      have own := plain seg List.mem_cons_self
      obtain ⟨dot, parent_⟩ := not_or.mp own
      rw [cleanedNext, if_neg dot, if_neg parent_, if_neg fun both => own both.2, ih fun other among => plain other (List.mem_cons_of_mem _ among)]
      simp
  | cons seg segs ih =>
    obtain ⟨notParent, later⟩ := not_or.mp (fun among => up (List.mem_cons.mpr among))
    have more : segs ++ back ≠ [] := by simp [some_]
    rw [List.cons_append, cleanedNext, if_neg fun both => more both.1, if_neg (Ne.symm notParent)]
    by_cases dot : seg = current
    · rw [if_pos dot, ih later, List.filter_cons_of_neg (by simpa using dot)]
    · rw [if_neg dot, ih later, List.filter_cons_of_pos (by simpa using dot)]
      simp

theorem cleanedBare {out segs : List Text} (bare : ∀ seg ∈ out, ¬ isDot seg) : ∀ seg ∈ cleaned out segs, ¬ isDot seg := by
  have dropped : ∀ out : List Text, (∀ seg ∈ out, ¬ isDot seg) → ∀ seg ∈ out.dropLast, ¬ isDot seg :=
    fun out plain seg among => plain seg (List.dropLast_subset _ among)
  induction segs generalizing out with
  | nil => exact bare
  | cons seg segs ih =>
    rw [cleanedNext]
    generalize kept : (if seg = current then out else if seg = parent then out.dropLast else out ++ [seg]) = kept'
    have keeps : ∀ other ∈ kept', ¬ isDot other := by
      subst kept
      intro other among
      split at among
      · exact bare other among
      · rename_i dot
        split at among
        · exact dropped out bare other among
        · rename_i back
          rcases List.mem_append.mp among with early | last
          · exact bare other early
          · exact List.mem_singleton.mp last ▸ not_or.mpr ⟨dot, back⟩
    intro other among
    split at among
    · rcases List.mem_append.mp among with early | last
      · exact keeps other early
      · exact List.mem_singleton.mp last ▸ (by decide)
    · exact ih keeps other among

theorem cleanedSlashless {out segs : List Text} (before : Slashless out) (plain : Slashless segs) : Slashless (cleaned out segs) := by
  induction segs generalizing out with
  | nil => exact before
  | cons seg segs ih =>
    have later : Slashless segs := fun other among => plain other (List.mem_cons_of_mem _ among)
    have kept : Slashless (if seg = current then out else if seg = parent then out.dropLast else out ++ [seg]) := by
      split
      · exact before
      · split
        · exact slashlessDrop before
        · exact slashlessSnoc before (plain seg List.mem_cons_self)
    rw [cleanedNext]
    split
    · exact slashlessSnoc kept List.not_mem_nil
    · exact ih kept later

theorem cleanedSome {out segs : List Text} (some_ : segs ≠ []) : cleaned out segs ≠ [] := by
  induction segs generalizing out with
  | nil => exact absurd rfl some_
  | cons seg segs ih =>
    rw [cleanedNext]
    split
    · simp
    · rename_i more
      cases segs with
      | cons next segs => exact ih (List.cons_ne_nil _ _)
      | nil =>
        obtain ⟨dot, back⟩ := not_or.mp fun dotted => more ⟨rfl, dotted⟩
        rw [if_neg dot, if_neg back]
        exact List.append_ne_nil_of_right_ne_nil out (List.cons_ne_nil seg [])

end Silent.UrlReference
