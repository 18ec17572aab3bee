import TrustMap.Mapnode.Replay.Document

/-!
When the legacy audit text of a path is faithful. The document of the path is followed through the
replacements: spacing and restoring touch the names of blocks only, and every turn of the last loop
writes the float of a weight into the first row whose weight begins with its digits.
-/

namespace TrustMap.Mapnode.Replay

open Replacement

/-! ## The compact text -/

theorem marshalItem_append {index : ℕ} {edge : ReplayPathSegment}
    (hFrom : PlainName edge.fromKey.chain) (hTo : PlainName edge.toKey.chain) (close : List Char) :
    marshalItem (segmentItem index edge) ++ close =
      '\x7b' :: after '"' ((segmentRow index edge).pieces [] [] ('\x7d' :: close)) := by
  have hKind : (segmentItem index edge).kind.flatMap marshalChar = (segmentItem index edge).kind := by
    obtain hKind | hKind := segmentItem_kind index edge <;> rw [hKind] <;> rfl
  rw [segmentItem_eq]
  unfold marshalItem
  simp only [marshalString, marshal_text hFrom, marshal_text hTo, hKind, String.reduceToList,
    segmentRow, Row.pieces, after_cons, after_nil, List.append_assoc, List.cons_append,
    List.nil_append, List.append_nil]

/-- The segments of a path have plain names. -/
def PlainSegments (path : ReplayPath) : Prop :=
  ∀ edge ∈ path.segments, PlainName edge.fromKey.chain ∧ PlainName edge.toKey.chain

/-- The rows of a path. -/
def pathRows (path : ReplayPath) : List Row :=
  path.segments.mapIdx segmentRow

theorem compactJSON_eq {path : ReplayPath} (hPlain : PlainSegments path) :
    pathSegmentsCompactJSON path = document [] [] (pathRows path) := by
  have hItems : ∀ (edges : List ReplayPathSegment) (edge : ReplayPathSegment) (index : ℕ),
      (∀ e ∈ edge :: edges, PlainName e.fromKey.chain ∧ PlainName e.toKey.chain) →
      List.intercalate [','] (((edge :: edges).zipIdx index).map fun e =>
          marshalItem (segmentItem e.2 e.1)) ++ [']'] =
        '\x7b' :: after '"' (documentPieces [] []
          (((edge :: edges).zipIdx index).map fun e => segmentRow e.2 e.1)) := by
    intro edges
    induction edges with
    | nil =>
        intro edge index hNames
        obtain ⟨hFrom, hTo⟩ := hNames edge List.mem_cons_self
        rw [List.zipIdx_singleton, List.map_singleton, List.map_singleton,
          List.intercalate_singleton, documentPieces_singleton, marshalItem_append hFrom hTo]
    | cons next edges ih =>
        intro edge index hNames
        obtain ⟨hFrom, hTo⟩ := hNames edge List.mem_cons_self
        have hFirst : marshalItem (segmentItem index edge) ++ [',', '\x7b'] = _ :=
          marshalItem_append hFrom hTo [',', '\x7b']
        have hRest := ih next (index + 1) fun e hMem => hNames e (List.mem_cons_of_mem edge hMem)
        simp only [List.zipIdx_cons, List.map_cons, documentPieces_cons, after_append,
          List.nil_append, List.intercalate_cons_cons, List.append_assoc] at hRest ⊢
        rw [hRest, ← List.cons_append, ← hFirst]
        simp
  rw [pathSegmentsCompactJSON, segmentItems, pathRows, List.mapIdx_eq_zipIdx_map,
    List.mapIdx_eq_zipIdx_map, List.map_map]
  cases hSegments : path.segments with
  | nil => rfl
  | cons edge edges =>
      rw [PlainSegments, hSegments] at hPlain
      exact congrArg ('[' :: ·) (hItems edges edge 0 hPlain)

/-! ## Spaces after colons and commas -/

/-- What the first two replacements write for a character. -/
def space (c : Char) : List Char :=
  if c = ':' then [':', ' '] else if c = ',' then [',', ' '] else [c]

theorem space_of_ne {c : Char} (hColon : c ≠ ':') (hComma : c ≠ ',') : space c = [c] := by
  rw [space, if_neg hColon, if_neg hComma]

theorem replaceAll_spaces (text : List Char) :
    replaceAll ",".toList ", ".toList (replaceAll ":".toList ": ".toList text) =
      text.flatMap space := by
  have hSpace : ∀ c : Char, ((if c = ':' then ": ".toList else [c]).flatMap fun d =>
      if d = ',' then ", ".toList else [d]) = space c := by
    intro c
    unfold space
    split
    · rfl
    · exact List.flatMap_singleton _ c
  have hColon : replaceAll ":".toList ": ".toList text =
      text.flatMap fun c => if c = ':' then ": ".toList else [c] := replaceAll_singleton ':' text
  rw [hColon]
  calc replaceAll ",".toList ", ".toList
        (text.flatMap fun c => if c = ':' then ": ".toList else [c])
      = (text.flatMap fun c => if c = ':' then ": ".toList else [c]).flatMap
          fun d => if d = ',' then ", ".toList else [d] := replaceAll_singleton ',' _
    _ = text.flatMap space := by
        rw [List.flatMap_assoc]
        exact List.flatMap_congr fun c _ => hSpace c

theorem flatMap_space_uintText (value : UInt64) : (uintText value).flatMap space = uintText value := by
  refine flatMap_eq_self fun c hMem => space_of_ne ?_ ?_
  · rintro rfl
    exact not_mem_uintText rfl hMem
  · rintro rfl
    exact not_mem_uintText rfl hMem

theorem flatMap_space_label {key : ReplayBlockKey} (h : PlainName key.chain) :
    (label [] key).flatMap space = label [' '] key := by
  have hChain : key.chain.toList.flatMap space = key.chain.toList :=
    flatMap_eq_self fun c hMem => space_of_ne (h.2 c hMem).2.1 (h.2 c hMem).2.2
  rw [label, label, List.flatMap_append, hChain, List.flatMap_cons, List.nil_append,
    flatMap_space_uintText]
  rfl

variable {row : Row}

theorem flatMap_space_kind (h : row.Sound) : row.kind.flatMap space = row.kind := by
  obtain hKind | hKind := h.kind <;> rw [hKind] <;> rfl

/-- A number literal has neither a colon nor a comma. -/
theorem flatMap_space_weight (h : row.Sound) : row.weight.flatMap space = row.weight := by
  have hChars := List.all_eq_true.mp h.weight.chars
  refine flatMap_eq_self fun c hMem => space_of_ne ?_ ?_
  · rintro rfl
    exact absurd (hChars _ hMem) (by decide)
  · rintro rfl
    exact absurd (hChars _ hMem) (by decide)

theorem map_space_pieces (h : row.Sound) (close : List Char) :
    (row.pieces [] [] close).map (fun piece => piece.flatMap space) =
      row.pieces [' '] [' '] (close.flatMap space) := by
  have hColon : space ':' = [':', ' '] := rfl
  have hComma : space ',' = [',', ' '] := rfl
  simp only [Row.pieces, List.map_cons, List.map_nil, List.flatMap_cons, List.flatMap_append,
    List.nil_append, hColon, hComma, flatMap_space_uintText, flatMap_space_label h.fromPlain,
    flatMap_space_label h.toPlain, flatMap_space_kind h, flatMap_space_weight h, List.flatMap_nil,
    List.cons_append]
  rfl

variable {rows : List Row}

theorem spaced_document (h : ∀ row ∈ rows, row.Sound) :
    (document [] [] rows).flatMap space = document [' '] [' '] rows := by
  cases rows with
  | nil => rfl
  | cons row rows =>
      have hPieces : (documentPieces [] [] (row :: rows)).map (fun piece => piece.flatMap space) =
          documentPieces [' '] [' '] (row :: rows) :=
        map_documentPieces (fun row hMem => map_space_pieces (h row hMem) _)
          (fun row hMem => map_space_pieces (h row hMem) _)
      rw [document, List.flatMap_append, flatMap_after rfl, hPieces]
      rfl

/-! ## The names of the nodes -/

theorem restoreNode_eq (text : List Char) (node : ReplayBlockKey) :
    restoreNode text node =
      replaceAll (node.chain.toList ++ ':' :: ' ' :: uintText node.height)
        (node.chain.toList ++ ':' :: uintText node.height) text := by
  unfold restoreNode
  simp only [String.reduceToList, List.append_assoc, List.cons_append, List.nil_append]

variable {nodes : List ReplayBlockKey}

/-- The loop over the nodes works on each piece. -/
theorem foldl_restoreNode_after (hPlain : ∀ node ∈ nodes, PlainName node.chain) (front : List Char)
    (pieces : List (List Char)) :
    nodes.foldl restoreNode (front ++ after '"' pieces) =
      nodes.foldl restoreNode front ++
        after '"' (pieces.map fun piece => nodes.foldl restoreNode piece) := by
  induction nodes generalizing front pieces with
  | nil => simp
  | cons node nodes ih =>
      have hNode := hPlain node List.mem_cons_self
      have hQuote : '"' ∉ node.chain.toList ++ ':' :: ' ' :: uintText node.height := by
        have hChain : '"' ∉ node.chain.toList := hNode.not_mem (.inl (by decide))
        have hHeight : '"' ∉ uintText node.height := not_mem_uintText rfl
        simp [hChain, hHeight]
      rw [List.foldl_cons, restoreNode_eq, replaceAll_after (by simp) hQuote,
        ih (fun other hMem => hPlain other (List.mem_cons_of_mem node hMem)), List.map_map,
        List.foldl_cons, restoreNode_eq]
      congr 2
      refine List.map_congr_left fun piece _ => ?_
      rw [Function.comp_apply, List.foldl_cons, restoreNode_eq]

/-- A piece without a colon, and a piece that begins with its only colon and a space, stay. -/
theorem foldl_restoreNode_of_not_mem {text : List Char} (h : ':' ∉ text) :
    nodes.foldl restoreNode text = text := by
  induction nodes with
  | nil => rfl
  | cons node nodes ih =>
      rw [List.foldl_cons, restoreNode_eq, replaceAll_of_not_mem (c := ':') (by simp) h, ih]

theorem foldl_restoreNode_colon (hPlain : ∀ node ∈ nodes, PlainName node.chain) {text : List Char}
    (h : ':' ∉ text) : nodes.foldl restoreNode (':' :: ' ' :: text) = ':' :: ' ' :: text := by
  induction nodes with
  | nil => rfl
  | cons node nodes ih =>
      have hStep : restoreNode ([] ++ ':' :: ' ' :: text) node = [] ++ ':' :: ' ' :: text := by
        rw [restoreNode_eq]
        refine replaceAll_marked_of_not (by simp) h (by decide) ?_
        rintro ⟨hSuffix, -⟩
        exact (hPlain node List.mem_cons_self).toList_ne_nil (List.suffix_nil.mp hSuffix)
      rw [List.foldl_cons]
      exact (congrArg (nodes.foldl restoreNode) hStep).trans
        (ih fun other hMem => hPlain other (List.mem_cons_of_mem node hMem))

/-- A name without the space stays. -/
theorem foldl_restoreNode_label {key : ReplayBlockKey} (h : PlainName key.chain) :
    nodes.foldl restoreNode (label [] key) = label [] key := by
  induction nodes with
  | nil => rfl
  | cons node nodes ih =>
      have hStep : restoreNode (label [] key) node = label [] key := by
        rw [restoreNode_eq]
        exact replaceAll_marked_of_no_gap (h.not_mem (.inr (.inl rfl))) (not_mem_uintText rfl)
          (not_mem_uintText rfl)
      rw [List.foldl_cons, hStep, ih]

/-- The space in the name of a node is removed. -/
theorem foldl_restoreNode_spaced {key : ReplayBlockKey} (h : PlainName key.chain)
    (hMem : key ∈ nodes) : nodes.foldl restoreNode (label [' '] key) = label [] key := by
  have hColon : ':' ∉ key.chain.toList := h.not_mem (.inr (.inl rfl))
  induction nodes with
  | nil => cases hMem
  | cons node nodes ih =>
      rw [List.foldl_cons]
      by_cases hMatch : node.chain.toList <:+ key.chain.toList ∧
          uintText node.height <+: uintText key.height
      · have hStep : restoreNode (label [' '] key) node = label [] key := by
          rw [restoreNode_eq]
          exact replaceAll_marked hColon (not_mem_uintText rfl) hMatch.1 hMatch.2
        rw [hStep, foldl_restoreNode_label h]
      · have hStep : restoreNode (label [' '] key) node = label [' '] key := by
          rw [restoreNode_eq]
          exact replaceAll_marked_of_not hColon (not_mem_uintText rfl) (by decide) hMatch
        have hNe : key ≠ node := by
          rintro rfl
          exact hMatch ⟨List.suffix_refl _, List.prefix_refl _⟩
        rw [hStep, ih ((List.mem_cons.mp hMem).resolve_left hNe)]

theorem map_restoreNode_pieces (hPlain : ∀ node ∈ nodes, PlainName node.chain) (h : row.Sound)
    (hFrom : row.fromKey ∈ nodes) (hTo : row.toKey ∈ nodes) {close : List Char}
    (hClose : ':' ∉ close) :
    (row.pieces [' '] [' '] close).map (fun piece => nodes.foldl restoreNode piece) =
      row.pieces [' '] [] close := by
  have hNumber : ∀ value : UInt64, ':' ∉ uintText value ++ [',', ' '] := by
    intro value
    have hDigits : ':' ∉ uintText value := not_mem_uintText rfl
    simp [hDigits]
  have hKind : ':' ∉ row.kind := by
    obtain hKind | hKind := h.kind <;> rw [hKind] <;> decide
  have hWeight : ':' ∉ row.weight ++ close := by
    rw [List.mem_append, not_or]
    exact ⟨fun hMem => absurd (List.all_eq_true.mp h.weight.chars _ hMem) (by decide), hClose⟩
  have hColon : ∀ {text : List Char}, ':' ∉ text →
      nodes.foldl restoreNode (':' :: ' ' :: text) = ':' :: ' ' :: text :=
    foldl_restoreNode_colon hPlain
  simp only [Row.pieces, List.map_cons, List.map_nil, List.cons_append, List.nil_append,
    foldl_restoreNode_spaced h.fromPlain hFrom, foldl_restoreNode_spaced h.toPlain hTo,
    foldl_restoreNode_of_not_mem hKind, hColon (hNumber _), hColon hWeight, hColon List.not_mem_nil]
  simp [foldl_restoreNode_of_not_mem]

theorem restored_document (hPlain : rows ≠ [] → ∀ node ∈ nodes, PlainName node.chain)
    (h : ∀ row ∈ rows, row.Sound) (hMem : ∀ row ∈ rows, row.fromKey ∈ nodes ∧ row.toKey ∈ nodes) :
    nodes.foldl restoreNode (document [' '] [' '] rows) = document [' '] [] rows := by
  cases rows with
  | nil => exact foldl_restoreNode_of_not_mem (by decide)
  | cons row rows =>
      have hPlain := hPlain (List.cons_ne_nil row rows)
      have hPieces : (documentPieces [' '] [' '] (row :: rows)).map
          (fun piece => nodes.foldl restoreNode piece) = documentPieces [' '] [] (row :: rows) :=
        map_documentPieces
          (fun row hRow => map_restoreNode_pieces hPlain (h row hRow) (hMem row hRow).1
            (hMem row hRow).2 (by decide))
          (fun row hRow => map_restoreNode_pieces hPlain (h row hRow) (hMem row hRow).1
            (hMem row hRow).2 (by decide))
      rw [document, foldl_restoreNode_after hPlain, foldl_restoreNode_of_not_mem (by decide), hPieces]
      rfl

/-! ## The weights -/

/-- A row with its weight as a float. -/
def Row.float (row : Row) : Row :=
  { row with weight := row.weight ++ ".0".toList }

/-- What a turn of the last loop does to the rows. -/
def floatRows (digits : List Char) : List Row → List Row
  | [] => []
  | row :: rows =>
      if digits <+: row.weight then
        { row with weight := digits ++ ".0".toList ++ row.weight.drop digits.length } :: rows
      else row :: floatRows digits rows

variable {digits : List Char}

theorem floatRows_of_isPrefix (h : digits <+: row.weight) (rows : List Row) :
    floatRows digits (row :: rows) =
      { row with weight := digits ++ ".0".toList ++ row.weight.drop digits.length } :: rows := by
  rw [floatRows, if_pos h]

theorem floatRows_of_not_isPrefix (h : ¬ digits <+: row.weight) (rows : List Row) :
    floatRows digits (row :: rows) = row :: floatRows digits rows := by
  rw [floatRows, if_neg h]

theorem exists_floatRows_eq_cons (digits : List Char) (row : Row) (rows : List Row) :
    ∃ row' rows', floatRows digits (row :: rows) = row' :: rows' := by
  by_cases h : digits <+: row.weight
  · exact ⟨_, _, floatRows_of_isPrefix h rows⟩
  · exact ⟨_, _, floatRows_of_not_isPrefix h rows⟩

theorem replaceAfter_pieces (h : row.Sound) (hDigits : '\x7d' ∉ digits) (close : List Char)
    (pieces : List (List Char)) :
    replaceAfter ['w'] (':' :: ' ' :: digits) (':' :: ' ' :: (digits ++ ".0".toList))
        (row.pieces [' '] [] ('\x7d' :: close) ++ pieces) =
      if digits <+: row.weight then
        { row with weight := digits ++ ".0".toList ++ row.weight.drop digits.length : Row }.pieces
          [' '] [] ('\x7d' :: close) ++ pieces
      else row.pieces [' '] [] ('\x7d' :: close) ++
        replaceAfter ['w'] (':' :: ' ' :: digits) (':' :: ' ' :: (digits ++ ".0".toList)) pieces := by
  have hLabel : ∀ key : ReplayBlockKey, label [] key ≠ ['w'] := by
    intro key hEq
    have hColon : ':' ∈ label [] key := by simp [label]
    rw [hEq] at hColon
    revert hColon
    decide
  have hKind : row.kind ≠ ['w'] := by
    obtain hKind | hKind := h.kind <;> rw [hKind] <;> decide
  have hMatch : ':' :: ' ' :: digits <+: ':' :: ' ' :: (row.weight ++ '\x7d' :: close) ↔
      digits <+: row.weight := by
    rw [List.cons_prefix_cons, List.cons_prefix_cons, prefix_append_cons_iff hDigits]
    simp
  have hColon : ∀ text : List Char, ':' :: text ≠ ['w'] := by simp
  have hComma : ∀ text : List Char, ',' :: text ≠ ['w'] := by simp
  simp only [Row.pieces, List.cons_append, List.nil_append]
  rw [replaceAfter_cons_of_ne (by decide), replaceAfter_cons_of_ne (hColon _),
    replaceAfter_cons_of_ne (by decide), replaceAfter_cons_of_ne (hColon _),
    replaceAfter_cons_of_ne (hLabel _), replaceAfter_cons_of_ne (hComma _),
    replaceAfter_cons_of_ne (by decide), replaceAfter_cons_of_ne (hColon _),
    replaceAfter_cons_of_ne (hLabel _), replaceAfter_cons_of_ne (hComma _),
    replaceAfter_cons_of_ne (by decide), replaceAfter_cons_of_ne (hColon _),
    replaceAfter_cons_of_ne hKind, replaceAfter_cons_of_ne (hComma _),
    replaceAfter_cons_of_ne (by decide), replaceAfter_cons_of_ne (hColon _),
    replaceAfter_cons_self]
  by_cases hWeight : digits <+: row.weight
  · rw [if_pos (hMatch.mpr hWeight), if_pos hWeight]
    simp [List.drop_append_of_le_length hWeight.length_le]
  · rw [if_neg (mt hMatch.mp hWeight), if_neg hWeight, replaceAfter_cons_of_ne (hColon _)]

theorem replaceAfter_documentPieces (h : ∀ row ∈ rows, row.Sound) (hDigits : '\x7d' ∉ digits) :
    replaceAfter ['w'] (':' :: ' ' :: digits) (':' :: ' ' :: (digits ++ ".0".toList))
        (documentPieces [' '] [] rows) =
      documentPieces [' '] [] (floatRows digits rows) := by
  induction rows with
  | nil => rfl
  | cons row rows ih =>
      have hRow := h row List.mem_cons_self
      have hRest := ih fun other hMem => h other (List.mem_cons_of_mem row hMem)
      cases rows with
      | nil =>
          have hPieces := replaceAfter_pieces hRow hDigits [']'] []
          rw [List.append_nil, List.append_nil] at hPieces
          rw [documentPieces_singleton, hPieces]
          split
          next hWeight => rw [floatRows_of_isPrefix hWeight, documentPieces_singleton]
          next hWeight =>
            rw [floatRows_of_not_isPrefix hWeight, floatRows, documentPieces_singleton]
            exact List.append_nil _
      | cons next rows =>
          rw [documentPieces_cons, replaceAfter_pieces hRow hDigits, hRest]
          split
          next hWeight => rw [floatRows_of_isPrefix hWeight, documentPieces_cons]
          next hWeight =>
            obtain ⟨other, others, hFloat⟩ := exists_floatRows_eq_cons digits next rows
            rw [floatRows_of_not_isPrefix hWeight, hFloat, documentPieces_cons]

theorem quote_not_mem_pieces (h : row.Sound) {close : List Char} (hClose : '"' ∉ close) :
    ∀ piece ∈ row.pieces [' '] [] close, '"' ∉ piece := by
  have hNumber : ∀ value : UInt64, '"' ∉ uintText value := fun value => not_mem_uintText rfl
  have hFrom : '"' ∉ row.fromKey.chain.toList := h.fromPlain.not_mem (.inl (by decide))
  have hTo : '"' ∉ row.toKey.chain.toList := h.toPlain.not_mem (.inl (by decide))
  have hKind : '"' ∉ row.kind := by
    obtain hKind | hKind := h.kind <;> rw [hKind] <;> decide
  have hWeight : '"' ∉ row.weight := fun hMem =>
    absurd (List.all_eq_true.mp h.weight.chars _ hMem) (by decide)
  simp [Row.pieces, label, hNumber, hFrom, hTo, hKind, hWeight, hClose]

theorem quote_not_mem_documentPieces (h : ∀ row ∈ rows, row.Sound) :
    ∀ piece ∈ documentPieces [' '] [] rows, '"' ∉ piece := by
  induction rows with
  | nil => simp [documentPieces]
  | cons row rows ih =>
      have hRow := h row List.mem_cons_self
      cases rows with
      | nil => exact quote_not_mem_pieces hRow (by decide)
      | cons next rows =>
          rw [documentPieces_cons, List.forall_mem_append]
          exact ⟨quote_not_mem_pieces hRow (by decide),
            ih fun other hMem => h other (List.mem_cons_of_mem row hMem)⟩

theorem floatRows_sound (h : ∀ row ∈ rows, row.Sound) (hDigits : Json.Numeral digits) :
    ∀ row ∈ floatRows digits rows, row.Sound := by
  induction rows with
  | nil => exact h
  | cons row rows ih =>
      have hRow := h row List.mem_cons_self
      have hRest := fun other hMem => h other (List.mem_cons_of_mem row hMem)
      rw [floatRows]
      split
      · rw [List.forall_mem_cons]
        refine ⟨⟨hRow.fromPlain, hRow.toPlain, hRow.kind, ?_, ?_⟩, hRest⟩
        · obtain ⟨c, hHead, hDigit⟩ := hDigits.digit
          refine ⟨c, ?_, hDigit⟩
          rw [List.append_assoc, List.head?_append_of_ne_nil]
          · exact hHead
          · rintro rfl
            cases hHead
        · rw [List.all_append, List.all_append, hDigits.chars, Bool.true_and, Bool.and_eq_true]
          refine ⟨by decide, List.all_eq_true.mpr fun c hMem => ?_⟩
          exact List.all_eq_true.mp hRow.weight.chars c (List.mem_of_mem_drop hMem)
      · rw [List.forall_mem_cons]
        exact ⟨hRow, ih hRest⟩

theorem floatWeight_document (h : ∀ row ∈ rows, row.Sound) (segment : ReplayPathSegment) :
    floatWeight (document [' '] [] rows) segment =
      document [' '] [] (floatRows (uintText segment.weight) rows) := by
  have hEq : floatWeight (document [' '] [] rows) segment =
      replaceFirst ('"' :: (['w'] ++ '"' :: ':' :: ' ' :: uintText segment.weight))
        ('"' :: (['w'] ++ '"' :: ':' :: ' ' :: (uintText segment.weight ++ ".0".toList)))
        (document [' '] [] rows) := by
    unfold floatWeight costText
    simp only [String.reduceToList, List.cons_append, List.nil_append]
  rw [hEq]
  cases rows with
  | nil => simp [document, floatRows, replaceFirst]
  | cons row rows =>
      have hDigits : '"' ∉ ':' :: ' ' :: uintText segment.weight := by
        have hText : '"' ∉ uintText segment.weight := not_mem_uintText rfl
        simp [hText]
      obtain ⟨other, others, hFloat⟩ := exists_floatRows_eq_cons (uintText segment.weight) row rows
      rw [document, replaceFirst_after (by decide) hDigits (by decide)
          (quote_not_mem_documentPieces h),
        replaceAfter_documentPieces h (not_mem_uintText rfl), hFloat, document]

/-- What the last loop does to the rows. -/
def floatAll (rows : List Row) (weights : List (List Char)) : List Row :=
  weights.foldl (fun rows digits => floatRows digits rows) rows

theorem floatAll_sound (h : ∀ row ∈ rows, row.Sound) {weights : List (List Char)}
    (hWeights : ∀ digits ∈ weights, Json.Numeral digits) :
    ∀ row ∈ floatAll rows weights, row.Sound := by
  induction weights generalizing rows with
  | nil => exact h
  | cons digits weights ih =>
      rw [List.forall_mem_cons] at hWeights
      exact ih (floatRows_sound h hWeights.1) hWeights.2

theorem foldl_floatWeight_document (h : ∀ row ∈ rows, row.Sound) (segments : List ReplayPathSegment) :
    segments.foldl floatWeight (document [' '] [] rows) =
      document [' '] [] (floatAll rows (segments.map fun segment => uintText segment.weight)) := by
  induction segments generalizing rows with
  | nil => rfl
  | cons segment segments ih =>
      rw [List.foldl_cons, floatWeight_document h, ih (floatRows_sound h (numeral_uintText _))]
      rfl

/-! ### Which rows the loop reaches -/

theorem floatRows_append_of_not_isPrefix {front : List Row}
    (h : ∀ row ∈ front, ¬ digits <+: row.weight) (rows : List Row) :
    floatRows digits (front ++ rows) = front ++ floatRows digits rows := by
  induction front with
  | nil => rfl
  | cons row front ih =>
      rw [List.forall_mem_cons] at h
      rw [List.cons_append, floatRows_of_not_isPrefix h.1, ih h.2, List.cons_append]

theorem prefix_float_iff (hDot : '.' ∉ digits) (row : Row) :
    digits <+: row.float.weight ↔ digits <+: row.weight :=
  prefix_append_cons_iff hDot

theorem floatRows_self (rows : List Row) :
    floatRows row.weight (row :: rows) = row.float :: rows := by
  rw [floatRows_of_isPrefix (List.prefix_refl _), List.drop_length, List.append_nil]
  rfl

/-- One turn after the rows before it are done: their floats are skipped. -/
theorem floatRows_after_done {before : List Row} {rest : List Row} (hDot : '.' ∉ row.weight)
    (h : ∀ other ∈ before, ¬ row.weight <+: other.weight) :
    floatRows row.weight (before.map Row.float ++ row :: rest) =
      (before ++ [row]).map Row.float ++ rest := by
  have hSkip : ∀ other ∈ before.map Row.float, ¬ row.weight <+: other.weight := by
    rw [List.forall_mem_map]
    intro other hMem hPrefix
    exact h other hMem ((prefix_float_iff hDot other).mp hPrefix)
  rw [floatRows_append_of_not_isPrefix hSkip, floatRows_self]
  simp

/-- If no weight begins an earlier one, every turn reaches its own row. -/
theorem floatAll_of_no_isPrefix {before rest : List Row} (hDot : ∀ row ∈ rest, '.' ∉ row.weight)
    (hBefore : ∀ row ∈ rest, ∀ other ∈ before, ¬ row.weight <+: other.weight)
    (hRest : rest.Pairwise fun earlier later => ¬ later.weight <+: earlier.weight) :
    floatAll (before.map Row.float ++ rest) (rest.map Row.weight) =
      (before ++ rest).map Row.float := by
  induction rest generalizing before with
  | nil => simp [floatAll]
  | cons row rest ih =>
      rw [List.forall_mem_cons] at hDot hBefore
      rw [List.pairwise_cons] at hRest
      have hNext : ∀ later ∈ rest, ∀ other ∈ before ++ [row], ¬ later.weight <+: other.weight := by
        intro later hLater
        rw [List.forall_mem_append, List.forall_mem_singleton]
        exact ⟨hBefore.2 later hLater, hRest.1 later hLater⟩
      rw [floatAll, List.map_cons, List.foldl_cons, floatRows_after_done hDot.1 hBefore.1]
      exact (ih hDot.2 hNext hRest.2).trans (by simp)

/-- The characters of the weights of the first rows. -/
def weightLength (count : ℕ) (rows : List Row) : ℕ :=
  ((rows.take count).map fun row => row.weight.length).sum

theorem weightLength_floatRows_le (digits : List Char) (count : ℕ) (rows : List Row) :
    weightLength count rows ≤ weightLength count (floatRows digits rows) := by
  induction rows generalizing count with
  | nil => exact Nat.le_refl _
  | cons row rows ih =>
      cases count with
      | zero => exact Nat.le_refl 0
      | succ count =>
          by_cases h : digits <+: row.weight
          · rw [floatRows_of_isPrefix h]
            have hLength := h.length_le
            simp [weightLength]
            omega
          · rw [floatRows_of_not_isPrefix h]
            have hRest := ih count
            simp only [weightLength, List.take_succ_cons, List.map_cons, List.sum_cons] at hRest ⊢
            omega

/-- A turn that reaches one of the first rows makes their weights longer. -/
theorem weightLength_floatRows_lt {count : ℕ} (h : ∃ row ∈ rows.take count, digits <+: row.weight) :
    weightLength count rows < weightLength count (floatRows digits rows) := by
  induction rows generalizing count with
  | nil => simp at h
  | cons row rows ih =>
      cases count with
      | zero => simp at h
      | succ count =>
          by_cases hRow : digits <+: row.weight
          · rw [floatRows_of_isPrefix hRow]
            have hLength := hRow.length_le
            simp [weightLength]
            omega
          · rw [floatRows_of_not_isPrefix hRow]
            obtain ⟨other, hMem, hPrefix⟩ := h
            rw [List.take_succ_cons, List.mem_cons] at hMem
            have hOther : other ∈ rows.take count := by
              refine hMem.resolve_left ?_
              rintro rfl
              exact hRow hPrefix
            have hRest := ih ⟨other, hOther, hPrefix⟩
            simp only [weightLength, List.take_succ_cons, List.map_cons, List.sum_cons] at hRest ⊢
            omega

theorem weightLength_floatAll_le (weights : List (List Char)) (count : ℕ) (rows : List Row) :
    weightLength count rows ≤ weightLength count (floatAll rows weights) := by
  induction weights generalizing rows with
  | nil => exact Nat.le_refl _
  | cons digits weights ih =>
      exact (weightLength_floatRows_le digits count rows).trans (ih (floatRows digits rows))

theorem weightLength_eq_of_map {rows' : List Row} (h : rows.map Row.weight = rows'.map Row.weight)
    (count : ℕ) : weightLength count rows = weightLength count rows' := by
  have hLength : ∀ rows : List Row,
      weightLength count rows = (((rows.map Row.weight).take count).map List.length).sum := by
    intro rows
    rw [weightLength, ← List.map_take, List.map_map]
    rfl
  rw [hLength, hLength, h]

/-- If every weight ends as its float, no weight begins an earlier one: a turn that reaches an
earlier row makes it too long for good. -/
theorem no_prefix_of_floatAll {before rest : List Row} (hDot : ∀ row ∈ rest, '.' ∉ row.weight)
    (h : (floatAll (before.map Row.float ++ rest) (rest.map Row.weight)).map Row.weight =
      ((before ++ rest).map Row.float).map Row.weight) :
    (∀ row ∈ rest, ∀ other ∈ before, ¬ row.weight <+: other.weight) ∧
      rest.Pairwise fun earlier later => ¬ later.weight <+: earlier.weight := by
  induction rest generalizing before with
  | nil => simp
  | cons row rest ih =>
      rw [List.forall_mem_cons] at hDot
      have hRow : ∀ other ∈ before, ¬ row.weight <+: other.weight := by
        intro other hMem hPrefix
        have hReach : ∃ reached ∈ (before.map Row.float ++ row :: rest).take before.length,
            row.weight <+: reached.weight := by
          refine ⟨other.float, ?_, (prefix_float_iff hDot.1 other).mpr hPrefix⟩
          rw [List.take_left' (by simp)]
          exact List.mem_map_of_mem hMem
        have hLonger := weightLength_floatRows_lt hReach
        have hKept := weightLength_floatAll_le (rest.map Row.weight) before.length
          (floatRows row.weight (before.map Row.float ++ row :: rest))
        have hEnd : weightLength before.length (floatAll (before.map Row.float ++ row :: rest)
            ((row :: rest).map Row.weight)) =
              weightLength before.length (before.map Row.float ++ row :: rest) := by
          rw [weightLength_eq_of_map h, List.map_append, weightLength, weightLength,
            List.take_left' (by simp), List.take_left' (by simp)]
        exact absurd (hLonger.trans_le hKept) (Nat.not_lt_of_le hEnd.le)
      rw [floatAll, List.map_cons, List.foldl_cons, floatRows_after_done hDot.1 hRow] at h
      obtain ⟨hNext, hPairs⟩ := ih hDot.2 (h.trans (by simp))
      have hLater : ∀ later ∈ rest, ∀ other ∈ before, ¬ later.weight <+: other.weight :=
        fun later hMem other hOther => hNext later hMem other (List.mem_append_left _ hOther)
      have hFirst : ∀ later ∈ rest, ¬ later.weight <+: row.weight :=
        fun later hMem => hNext later hMem row (by simp)
      exact ⟨List.forall_mem_cons.mpr ⟨hRow, hLater⟩, List.pairwise_cons.mpr ⟨hFirst, hPairs⟩⟩

/-! ## The texts of a path -/

theorem pathRows_sound {path : ReplayPath} (hPlain : PlainSegments path) :
    ∀ row ∈ pathRows path, row.Sound := by
  intro row hMem
  obtain ⟨index, hIndex, rfl⟩ := List.mem_mapIdx.mp hMem
  obtain ⟨hFrom, hTo⟩ := hPlain _ (List.getElem_mem hIndex)
  exact segmentRow_sound hFrom hTo

theorem map_weight_pathRows (path : ReplayPath) :
    (pathRows path).map Row.weight = path.segments.map fun segment => uintText segment.weight := by
  refine List.ext_getElem (by simp [pathRows]) fun index _ _ => ?_
  simp [pathRows, segmentRow]

theorem map_record_pathRows (path : ReplayPath) :
    (pathRows path).map Row.record =
      (segmentItems path).map fun item => item.record (uintText item.weight) := by
  refine List.ext_getElem (by simp [pathRows, segmentItems]) fun index _ _ => ?_
  simp only [pathRows, segmentItems, List.getElem_map, List.getElem_mapIdx]
  rw [segmentItem_eq]
  rfl

theorem map_record_float_pathRows (path : ReplayPath) :
    ((pathRows path).map Row.float).map Row.record =
      (segmentItems path).map fun item => item.record (costText item.weight) := by
  refine List.ext_getElem (by simp [pathRows, segmentItems]) fun index _ _ => ?_
  simp only [pathRows, segmentItems, List.getElem_map, List.getElem_mapIdx]
  rw [segmentItem_eq]
  rfl

theorem decode_compactJSON {path : ReplayPath} (hPlain : PlainSegments path) :
    Json.decode (pathSegmentsCompactJSON path) =
      some ((segmentItems path).map fun item => item.record (uintText item.weight)) := by
  have hValid : ∀ row ∈ pathRows path, Json.validNumber row.weight := by
    intro row hMem
    obtain ⟨index, hIndex, rfl⟩ := List.mem_mapIdx.mp hMem
    exact validNumber_uintText _
  rw [compactJSON_eq hPlain, decode_document rfl (pathRows_sound hPlain), if_pos hValid,
    map_record_pathRows]

/-- The legacy text is the document of the rows the last loop leaves. -/
theorem legacyJSON_eq
    {adjacency : ReplayBlockKey → ReplayBlockKey → Option ReplayEdge} {cost : UInt64}
    {path : ReplayPath} (hPath : reconstructPath adjacency cost nodes = some path)
    (hPlain : PlainSegments path) :
    pathSegmentsLegacyJSON path =
      document [' '] [] (floatAll (pathRows path) ((pathRows path).map Row.weight)) := by
  obtain ⟨rfl, hSegments⟩ := reconstructPath_joins hPath
  have hNodes : pathRows path ≠ [] → ∀ node ∈ path.nodes, PlainName node.chain := by
    intro hRows node hNode
    have hSome : path.segments ≠ [] := by
      rintro hNone
      exact hRows (by rw [pathRows, hNone, List.mapIdx_nil])
    obtain ⟨edge, hEdge, rfl | rfl⟩ := reconstructPath_covers hPath hSome hNode
    · exact (hPlain edge hEdge).1
    · exact (hPlain edge hEdge).2
  have hMem : ∀ row ∈ pathRows path, row.fromKey ∈ path.nodes ∧ row.toKey ∈ path.nodes := by
    intro row hRow
    obtain ⟨index, hIndex, rfl⟩ := List.mem_mapIdx.mp hRow
    exact hSegments _ (List.getElem_mem hIndex)
  have hSound := pathRows_sound hPlain
  rw [pathSegmentsLegacyJSON, replaceAll_spaces, compactJSON_eq hPlain, spaced_document hSound,
    restored_document hNodes hSound hMem, foldl_floatWeight_document hSound, map_weight_pathRows]

/-- The weight in the record of a row. -/
def recordWeight (record : Json.Record) : List Char :=
  match record.getLast? with
  | some (_, .number weight) => weight
  | _ => []

theorem map_weight_eq_of_map_record {rows' : List Row}
    (h : rows.map Row.record = rows'.map Row.record) :
    rows.map Row.weight = rows'.map Row.weight := by
  have hWeight := congrArg (List.map recordWeight) h
  rwa [List.map_map, List.map_map] at hWeight

theorem noPrefixWeights_iff (path : ReplayPath) :
    NoPrefixWeights path ↔
      (pathRows path).Pairwise fun earlier later => ¬ later.weight <+: earlier.weight := by
  have hRows := List.pairwise_map (f := Row.weight) (R := fun e l => ¬ l <+: e) (l := pathRows path)
  rw [← hRows, map_weight_pathRows, List.pairwise_map]
  rfl

/-- If the ends of its segments have plain names, the legacy text of a path of the planner is faithful if and only if no weight
is a decimal prefix of an earlier one. -/
theorem legacyFaithful_iff_noPrefixWeights
    {adjacency : ReplayBlockKey → ReplayBlockKey → Option ReplayEdge} {cost : UInt64}
    {path : ReplayPath} (hPath : reconstructPath adjacency cost nodes = some path)
    (hPlain : PlainSegments path) : LegacyFaithful path ↔ NoPrefixWeights path := by
  have hSound := pathRows_sound hPlain
  have hDot : ∀ row ∈ pathRows path, '.' ∉ row.weight := by
    intro row hMem
    obtain ⟨index, hIndex, rfl⟩ := List.mem_mapIdx.mp hMem
    exact not_mem_uintText rfl
  have hNumerals : ∀ digits ∈ (pathRows path).map Row.weight, Json.Numeral digits := by
    rw [List.forall_mem_map]
    exact fun row hMem => (hSound row hMem).weight
  rw [LegacyFaithful, and_iff_right (decode_compactJSON hPlain), legacyJSON_eq hPath hPlain,
    decode_document rfl (floatAll_sound hSound hNumerals), noPrefixWeights_iff,
    ← map_record_float_pathRows]
  constructor
  · intro hFaithful
    split at hFaithful
    next hValid =>
      have hWeights := map_weight_eq_of_map_record (Option.some.inj hFaithful)
      exact (@no_prefix_of_floatAll [] _ hDot hWeights).2
    next hInvalid => cases hFaithful
  · intro hNone
    have hFloat : floatAll (pathRows path) ((pathRows path).map Row.weight) =
        (pathRows path).map Row.float :=
      @floatAll_of_no_isPrefix [] _ hDot (by simp) hNone
    have hValid : ∀ row ∈ (pathRows path).map Row.float, Json.validNumber row.weight := by
      rw [List.forall_mem_map]
      intro row hMem
      obtain ⟨index, hIndex, rfl⟩ := List.mem_mapIdx.mp hMem
      exact validNumber_costText _
    rw [hFloat, if_pos hValid]

namespace Toy

/-- Two edges that lead from block 1 of chain a over block 2 of chain b to block 12 of chain c. -/
def adjacency (first second : UInt64) (fromKey toKey : ReplayBlockKey) : Option ReplayEdge :=
  if fromKey = ⟨"a", 1⟩ ∧ toKey = ⟨"b", 2⟩ then some ⟨.verifiedDependency, first⟩
  else if fromKey = ⟨"b", 2⟩ ∧ toKey = ⟨"c", 12⟩ then some ⟨.verifiedDependency, second⟩
  else none

/-- The path over the two edges. -/
def path (first second : UInt64) : ReplayPath where
  cost := first + second
  nodes := [⟨"a", 1⟩, ⟨"b", 2⟩, ⟨"c", 12⟩]
  segments := [⟨⟨"a", 1⟩, ⟨"b", 2⟩, .verifiedDependency, first⟩,
    ⟨⟨"b", 2⟩, ⟨"c", 12⟩, .verifiedDependency, second⟩]

theorem reconstructPath_path (first second : UInt64) :
    reconstructPath (adjacency first second) (first + second) (path first second).nodes =
      some (path first second) := rfl

theorem path_plain (first second : UInt64) : PlainSegments (path first second) := by
  have hMarshal : marshalChar 'a' = ['a'] ∧ marshalChar 'b' = ['b'] ∧ marshalChar 'c' = ['c'] := by
    decide
  simp [PlainSegments, path, PlainName, hMarshal]

end Toy

/-- A weight may begin a later one. -/
theorem legacyFaithful_growing : LegacyFaithful (Toy.path 3 30) :=
  (legacyFaithful_iff_noPrefixWeights (Toy.reconstructPath_path 3 30) (Toy.path_plain 3 30)).mpr
    (by unfold NoPrefixWeights; decide)

/-- With a repeated weight the legacy text is no JSON: the first weight becomes `30.0.0`. -/
theorem legacyJSON_of_repeated_weight :
    reconstructPath (Toy.adjacency 30 30) 60 (Toy.path 30 30).nodes = some (Toy.path 30 30) ∧
      Json.decode (pathSegmentsCompactJSON (Toy.path 30 30)) ≠ none ∧
      Json.decode (pathSegmentsLegacyJSON (Toy.path 30 30)) = none := by
  decide +kernel

end TrustMap.Mapnode.Replay
