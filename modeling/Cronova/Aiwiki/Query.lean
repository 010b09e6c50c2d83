import Cronova.Text.Replacing
import Cronova.Text.Strings
import Mathlib.Data.List.DropRight

/-! Queries of the knowledge base. A Polish query is translated word by word before it is
cut into tokens; the words stand in a map, which is enumerated in any order. -/
namespace Cronova.Aiwiki
open Cronova.Text Cronova.Text.Replacing

/-- Polish phrases and words, and what they become. -/
def replacements : List (String × String) :=
  [("jak zrobić", "how to create"), ("jak stworzyć", "how to create"), ("jak utworzyć", "how to create"),
   ("jak skonfigurować", "how to configure"), ("jak ustawić", "how to set"), ("co to jest", "what is"),
   ("czym jest", "what is"), ("co oznacza", "what means"), ("jak działa", "how works"), ("jak użyć", "how to use"),
   ("jak uruchomić", "how to run"), ("jak dodać", "how to add"), ("jak edytować", "how to edit"),
   ("jak usunąć", "how to delete"), ("jak zatrzymać", "how to stop"), ("jak ponowić", "how to retry"),
   ("gdzie jest", "where is"), ("gdzie znaleźć", "where to find"), ("czy można", "can you"),
   ("czy wiesz", "do you know"), ("zrobić", "create"), ("stworzyć", "create"), ("utworzyć", "create"),
   ("skonfigurować", "configure"), ("ustawić", "set"), ("uruchomić", "run"), ("ponowić", "retry"), ("dodać", "add"),
   ("usunąć", "delete"), ("edytować", "edit"), ("zatrzymać", "stop"), ("użyć", "use"), ("działa", "works"),
   ("znaleźć", "find"), ("graf", "graph"), ("zadanie", "task"), ("zadania", "tasks"), ("zadaniu", "task"),
   ("harmonogram", "schedule"), ("ponowienie", "retry"), ("błąd", "error"), ("logi", "logs"), ("log", "log"),
   ("projekt", "project"), ("skrypt", "script"), ("polecenie", "command"), ("pole", "field"), ("plik", "file"),
   ("katalog", "directory"), ("folder", "directory"), ("zmienna", "variable"), ("zmienne", "variables"),
   ("parametr", "parameter"), ("parametry", "parameters"), ("wersja", "version"), ("instalacja", "install"),
   ("zainstalować", "install"), ("konfiguracja", "configuration"), ("dokumentacja", "documentation"),
   ("przykład", "example"), ("przykłady", "examples"), ("opis", "description"), ("szczegóły", "details"),
   ("informacje", "information"), ("pomoc", "help"), ("wsparcie", "support"), ("problem", "problem"),
   ("ostrzeżenie", "warning"), ("sukces", "success"), ("status", "status"), ("wynik", "result"),
   ("wyniki", "results"), ("proces", "process"), ("procesy", "processes"), ("wątek", "thread"), ("wątki", "threads"),
   ("pula", "pool"), ("pule", "pools"), ("worker", "worker"), ("workery", "workers"), ("executor", "executor"),
   ("serwer", "server"), ("klient", "client"), ("interfejs", "interface"), ("api", "api"), ("endpoint", "endpoint"),
   ("żądanie", "request"), ("odpowiedź", "response"), ("nagłówek", "header"), ("token", "token"),
   ("autentykacja", "authentication"), ("autoryzacja", "authorization"), ("użytkownik", "user"),
   ("użytkownicy", "users"), ("rola", "role"), ("role", "roles"), ("uprawnienie", "permission"),
   ("uprawnienia", "permissions"), ("dane", "data"), ("baza", "database"), ("bazy", "databases"), ("tabela", "table"),
   ("tabele", "tables"), ("rekord", "record"), ("rekordy", "records"), ("kolumna", "column"), ("kolumny", "columns"),
   ("indeks", "index"), ("indeksy", "indexes"), ("zapytanie", "query"), ("zapytania", "queries"),
   ("transakcja", "transaction"), ("transakcje", "transactions"), ("kopia", "backup"), ("kopie", "backups"),
   ("przywrócić", "restore"), ("migrować", "migrate"), ("migracja", "migration"), ("eksport", "export"),
   ("import", "import"), ("szablon", "template"), ("szablony", "templates"), ("workflow", "workflow"),
   ("pipelina", "pipeline"), ("pipelines", "pipelines"), ("ciągły", "continuous"), ("ciągła", "continuous"),
   ("integracja", "integration"), ("dostarczanie", "delivery"), ("wdrożenie", "deployment"),
   ("środowisko", "environment"), ("środowiska", "environments"), ("produkcyjny", "production"),
   ("produkcyjna", "production"), ("lokalny", "local"), ("lokalna", "local"), ("zdalny", "remote"),
   ("zdalna", "remote"), ("bezpieczeństwo", "security"), ("monitoring", "monitoring"), ("metryki", "metrics"),
   ("alert", "alert"), ("alerty", "alerts"), ("powiadomienie", "notification"), ("powiadomienia", "notifications"),
   ("email", "email"), ("slack", "slack"), ("webhook", "webhook"), ("cron", "cron"), ("czas", "time"),
   ("daty", "dates"), ("data", "date"), ("częstotliwość", "frequency"), ("okres", "period"), ("okresy", "periods"),
   ("minuta", "minute"), ("minuty", "minutes"), ("godzina", "hour"), ("godziny", "hours"), ("dzień", "day"),
   ("dni", "days"), ("tydzień", "week"), ("tygodnie", "weeks"), ("miesiąc", "month"), ("miesiące", "months"),
   ("rok", "year"), ("lata", "years")]

def replaceEntry (q : List Char) (e : String × String) : List Char := replaceAll e.1.toList e.2.toList q

/-- `order` is the order in which the map is enumerated. -/
def translateQueryPLToEN (toLower : String → String) (order : List (String × String)) (query : String) : String :=
  String.ofList (order.foldl replaceEntry (toLower query).toList)

def stop : List String :=
  ["jak", "co", "to", "jest", "w", "z", "a", "the", "is", "what", "how", "do", "i", "or", "and", "for", "in", "on",
   "czy", "wiesz", "ty", "wiem", "know", "you", "czym", "kim", "który", "ktora", "ktore"]

def punctuation : List Char := "?.,!;:\"'()[]\x7b\x7d<>".toList

/-- A word without the punctuation at its ends. -/
def trimWord (w : List Char) : List Char := (w.dropWhile (· ∈ punctuation)).rdropWhile (· ∈ punctuation)

def tokenizeBM25 (s : String) : List String :=
  (((s.toList.splitOnP isSpace).filter (· ≠ [])).map (fun w => String.ofList (trimWord w))).filter (fun w => w ≠ "" ∧ w ∉ stop)

/-- The results are ranked by the tokens of the query. -/
def search {Chunk : Type} (toLower : String → String) (rank : List String → List Chunk) (order : List (String × String))
    (query : String) : List Chunk :=
  let qTokens := tokenizeBM25 (toLower (translateQueryPLToEN toLower order query))
  if qTokens = [] then [] else rank qTokens

end Cronova.Aiwiki
