import RecordMill.Machine.Kind
import RecordMill.Program.Operator

/-!
# Services

Machine code calls a service for whatever needs the context of a run: strings, maps, records, variables
and printing. A string takes two words; the context itself is an opaque word that comes first, except
for the functions of doubles, which need none.
-/

namespace RecordMill

inductive MapService where
  | alloc
  | lookup
  | insert
  | contains
  | delete
  | len
  | iterBegin
  deriving DecidableEq, Repr

inductive Service where
  | refStr
  | dropStr
  | ref
  | drop
  | remainder
  | power
  | sin
  | cos
  | atan
  | atan2
  | log
  | log2
  | log10
  | exp
  | intToStr
  | floatToStr
  | strToInt
  | strToFloat
  | concat
  | strLen
  | compareStr
  | matchPattern
  | split (key : Key)
  | nextLine
  | getColumn
  | setColumn
  | readFileLine
  | lineStatus
  | loadInt
  | storeInt
  | loadStr
  | storeStr
  | loadMap
  | storeMap
  | printAll
  | printf
  | sprintf
  | iterLen (key : Key)
  | iterGet (key : Key)
  | map (key : Key) (val : Scalar) (what : MapService)
  deriving DecidableEq, Repr

/-! ## Names -/

def MapService.name : MapService → Bytes
  | .alloc => "alloc"
  | .lookup => "lookup"
  | .insert => "insert"
  | .contains => "contains"
  | .delete => "delete"
  | .len => "len"
  | .iterBegin => "iter_begin"

namespace Service

def shortName : Service → Bytes
  | .refStr => "ref_str"
  | .dropStr => "drop_str"
  | .ref => "ref"
  | .drop => "drop"
  | .remainder => "fprem"
  | .power => "pow"
  | .sin => "sin"
  | .cos => "cos"
  | .atan => "atan"
  | .atan2 => "atan2"
  | .log => "log"
  | .log2 => "log2"
  | .log10 => "log10"
  | .exp => "exp"
  | .intToStr => "int_to_str"
  | .floatToStr => "float_to_str"
  | .strToInt => "str_to_int"
  | .strToFloat => "str_to_float"
  | .concat => "concat"
  | .strLen => "str_len"
  | .compareStr => "str_cmp"
  | .matchPattern => "match"
  | .split k => "split_" ++ Ty.keyName k
  | .nextLine => "next_line"
  | .getColumn => "get_col"
  | .setColumn => "set_col"
  | .readFileLine => "read_file_line"
  | .lineStatus => "getline_status"
  | .loadInt => "load_int_var"
  | .storeInt => "store_int_var"
  | .loadStr => "load_str_var"
  | .storeStr => "store_str_var"
  | .loadMap => "load_map_var"
  | .storeMap => "store_map_var"
  | .printAll => "print_all"
  | .printf => "printf"
  | .sprintf => "sprintf"
  | .iterLen k => "iter_" ++ Ty.keyName k ++ ".len"
  | .iterGet k => "iter_" ++ Ty.keyName k ++ ".get"
  | .map k v what => "map_" ++ Ty.keyName k ++ "_" ++ Ty.scalarName v ++ "." ++ what.name

def name (s : Service) : Bytes := "rt." ++ s.shortName

/-- All services in the order in which a module declares them. -/
def all : List Service :=
  ([.refStr, .dropStr, .ref, .drop, .remainder, .power, .sin, .cos, .atan, .atan2, .log, .log2, .log10, .exp,
    .intToStr, .floatToStr, .strToInt, .strToFloat, .concat, .strLen, .compareStr, .matchPattern, .split .int,
    .split .str, .nextLine, .getColumn, .setColumn, .readFileLine, .lineStatus, .loadInt, .storeInt, .loadStr,
    .storeStr, .loadMap, .storeMap, .printAll, .printf, .sprintf, .iterLen .int, .iterGet .int, .iterLen .str,
    .iterGet .str] : List Service)
  ++ [(Key.int, Scalar.int), (.int, .float), (.int, .str), (.str, .int), (.str, .float), (.str, .str)].flatMap
    fun (k, v) => [MapService.alloc, .lookup, .insert, .contains, .delete, .len, .iterBegin].map (.map k v)

/-- The service behind a function of doubles; the square root needs none. -/
def ofMath? : MathFn → Option Service
  | .sin => some .sin
  | .cos => some .cos
  | .atan => some .atan
  | .atan2 => some .atan2
  | .log => some .log
  | .log2 => some .log2
  | .log10 => some .log10
  | .exp => some .exp
  | .sqrt | .unknown _ => none

/-! ## Signatures -/

open Machine (Kind Signature)

def keyKind : Key → Kind
  | .int => .i64
  | .str => .i128

def scalarKind : Scalar → Kind
  | .int => .i64
  | .float => .f64
  | .str => .i128

def mapSig (k : Key) (v : Scalar) : MapService → Signature
  | .alloc => ⟨[.i64], [.i64]⟩
  | .lookup => ⟨[.i64, .i64, keyKind k], [scalarKind v]⟩
  | .insert => ⟨[.i64, .i64, keyKind k, scalarKind v], []⟩
  | .contains => ⟨[.i64, .i64, keyKind k], [.i64]⟩
  | .delete => ⟨[.i64, .i64, keyKind k], []⟩
  | .len => ⟨[.i64, .i64], [.i64]⟩
  | .iterBegin => ⟨[.i64, .i64], [.i64]⟩

def sig : Service → Signature
  | .refStr | .dropStr => ⟨[.i64, .i128], []⟩
  | .ref | .drop => ⟨[.i64, .i64], []⟩
  | .remainder | .power | .atan2 => ⟨[.f64, .f64], [.f64]⟩
  | .sin | .cos | .atan | .log | .log2 | .log10 | .exp => ⟨[.f64], [.f64]⟩
  | .intToStr => ⟨[.i64, .i64], [.i128]⟩
  | .floatToStr => ⟨[.i64, .f64], [.i128]⟩
  | .strToInt | .strLen => ⟨[.i64, .i128], [.i64]⟩
  | .strToFloat => ⟨[.i64, .i128], [.f64]⟩
  | .concat => ⟨[.i64, .i128, .i128], [.i128]⟩
  | .compareStr | .matchPattern => ⟨[.i64, .i128, .i128], [.i64]⟩
  | .split _ => ⟨[.i64, .i128, .i64, .i128], [.i64]⟩
  | .nextLine | .lineStatus => ⟨[.i64], [.i64]⟩
  | .getColumn => ⟨[.i64, .i64], [.i128]⟩
  | .setColumn => ⟨[.i64, .i64, .i128], []⟩
  | .readFileLine => ⟨[.i64, .i128], [.i128]⟩
  | .loadInt | .loadMap => ⟨[.i64, .i64], [.i64]⟩
  | .loadStr => ⟨[.i64, .i64], [.i128]⟩
  | .storeInt | .storeMap => ⟨[.i64, .i64, .i64], []⟩
  | .storeStr => ⟨[.i64, .i64, .i128], []⟩
  | .printAll => ⟨[.i64, .i32, .i128, .i64, .i64], [.i64]⟩
  | .printf => ⟨[.i64, .i32, .i128, .i128, .i64, .i64], [.i64]⟩
  | .sprintf => ⟨[.i64, .i128, .i64, .i64], [.i128]⟩
  | .iterLen _ => ⟨[.i64, .i64], [.i64]⟩
  | .iterGet k => ⟨[.i64, .i64, .i64], [keyKind k]⟩
  | .map k v what => mapSig k v what

end Service

end RecordMill
