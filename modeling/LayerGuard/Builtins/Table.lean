/-! # Names that the PHP runtime provides

All names are written in small letters and without a leading separator.
-/

namespace LayerGuard.Builtins

/-- Classes, interfaces, enumerations and attributes in the global namespace. -/
def classes : List String :=
  ["__php_incomplete_class", "allowdynamicproperties", "appenditerator", "argumentcounterror",
    "arithmeticerror", "arrayaccess", "arrayiterator", "arrayobject", "assertionerror", "attribute",
    "backedenum", "badfunctioncallexception", "badmethodcallexception", "cachingiterator",
    "callbackfilteriterator", "closure", "collator", "compileerror", "countable", "dateinterval",
    "dateperiod", "datetime", "datetimeimmutable", "datetimeinterface", "datetimezone", "directory",
    "directoryiterator", "divisionbyzeroerror", "domainexception", "domdocument", "domelement",
    "domnode", "domxpath", "emptyiterator", "error", "errorexception", "exception", "fiber",
    "fibererror", "filesystemiterator", "filteriterator", "generator", "globiterator",
    "infiniteiterator", "internaliterator", "intldateformatter", "invalidargumentexception",
    "iterator", "iteratoraggregate", "iteratoriterator", "jsonexception", "jsonserializable",
    "lengthexception", "limititerator", "locale", "logicexception", "multipleiterator",
    "norewinditerator", "normalizer", "numberformatter", "outeriterator", "outofboundsexception",
    "outofrangeexception", "overflowexception", "override", "parentiterator", "parseerror", "pdo",
    "pdoexception", "pdostatement", "php_user_filter", "rangeexception", "recursivearrayiterator",
    "recursivecachingiterator", "recursivecallbackfilteriterator", "recursivedirectoryiterator",
    "recursivefilteriterator", "recursiveiterator", "recursiveiteratoriterator",
    "recursiveregexiterator", "recursivetreeiterator", "reflectionclass", "reflectionenum",
    "reflectionexception", "reflectionfunction", "reflectionmethod", "reflectionnamedtype",
    "reflectionobject", "reflectionparameter", "reflectionproperty", "regexiterator",
    "returntypewillchange", "runtimeexception", "seekableiterator", "sensitiveparameter",
    "serializable", "simplexmlelement", "spldoublylinkedlist", "splfileinfo", "splfileobject",
    "splfixedarray", "splheap", "splmaxheap", "splminheap", "splobjectstorage", "splobserver",
    "splpriorityqueue", "splqueue", "splstack", "splsubject", "spltempfileobject", "stdclass",
    "stringable", "throwable", "traversable", "typeerror", "underflowexception",
    "unexpectedvalueexception", "unhandledmatcherror", "unitenum", "valueerror", "weakmap",
    "weakreference", "xmlreader", "xmlwriter"]

def namespacedClasses : List String :=
  ["dom\\document", "dom\\element", "dom\\htmldocument", "dom\\node", "dom\\xmldocument",
    "pdo\\mysql", "pdo\\pgsql", "pdo\\sqlite", "random\\brokenrandomengineerror",
    "random\\cryptosafeengine", "random\\engine", "random\\engine\\mt19937",
    "random\\engine\\pcgoneseq128xslrr64", "random\\engine\\secure",
    "random\\engine\\xoshiro256starstar", "random\\intervalboundary", "random\\randomerror",
    "random\\randomexception", "random\\randomizer"]

def functions : List String :=
  ["abs", "array_chunk", "array_column", "array_combine", "array_diff", "array_diff_key",
    "array_fill", "array_fill_keys", "array_filter", "array_flip", "array_intersect",
    "array_intersect_key", "array_is_list", "array_key_exists", "array_key_first", "array_key_last",
    "array_keys", "array_map", "array_merge", "array_merge_recursive", "array_pad", "array_pop",
    "array_push", "array_reduce", "array_replace", "array_reverse", "array_search", "array_shift",
    "array_slice", "array_splice", "array_sum", "array_unique", "array_unshift", "array_values",
    "array_walk", "arsort", "asort", "assert", "basename", "bin2hex", "call_user_func",
    "call_user_func_array", "ceil", "class_exists", "compact", "count", "ctype_digit", "date",
    "debug_backtrace", "dirname", "explode", "file_exists", "file_get_contents",
    "file_put_contents", "filter_var", "floor", "fclose", "fopen", "fread", "fwrite",
    "func_get_args", "function_exists", "get_class", "get_object_vars", "get_parent_class",
    "gettype", "hash", "hash_hmac", "htmlspecialchars", "implode", "in_array", "intdiv",
    "interface_exists", "intval", "is_array", "is_bool", "is_callable", "is_dir", "is_file",
    "is_float", "is_int", "is_iterable", "is_null", "is_numeric", "is_object", "is_readable",
    "is_string", "is_subclass_of", "is_writable", "iterator_to_array", "json_decode", "json_encode",
    "krsort", "ksort", "lcfirst", "ltrim", "max", "mb_strlen", "mb_strtolower", "mb_strtoupper",
    "mb_substr", "md5", "method_exists", "microtime", "min", "mkdir", "mt_rand", "number_format",
    "ob_get_clean", "ob_start", "password_hash", "password_verify", "pathinfo", "preg_match",
    "preg_match_all", "preg_quote", "preg_replace", "preg_replace_callback", "preg_split",
    "print_r", "property_exists", "random_bytes", "random_int", "range", "rawurlencode", "realpath",
    "round", "rsort", "rtrim", "scandir", "serialize", "sha1", "sort", "sprintf",
    "spl_autoload_register", "spl_object_hash", "spl_object_id", "str_contains", "str_ends_with",
    "str_pad", "str_repeat", "str_replace", "str_split", "str_starts_with", "strcasecmp", "strcmp",
    "strlen", "strpos", "strrpos", "strtolower", "strtotime", "strtoupper", "strval", "substr",
    "substr_count", "time", "trait_exists", "trigger_error", "trim", "uasort", "ucfirst", "ucwords",
    "uksort", "uniqid", "unlink", "unserialize", "urlencode", "usort", "var_dump", "var_export",
    "vsprintf"]

def runtimeNames : List String := classes ++ namespacedClasses ++ functions

end LayerGuard.Builtins
