import HashArchive.Util.TemplateFilling

/-!
# The templates

The files of `templates` that the pages are written with, and where a reader of them is at each of
their variables: in text, or in an attribute value between double quotes, but never in a tag.
-/

set_option autoImplicit false

namespace HashArchive.Pages

open Markup Templates

/-- A file, in pieces. -/
def file (pieces : List String) : Str := pieces.flatMap String.toList

/-- The characters of the pieces can be read off the source. -/
theorem file_cons (piece : List Char) (pieces : List String) :
    file (String.ofList piece :: pieces) = piece ++ file pieces := by
  rw [file, List.flatMap_cons, String.toList_ofList]
  rfl

/-! ## Files -/

/-- `history-header.html`. -/
def historyHeaderHtml : Str := file [
    "<!doctype html>\n",
    "<meta charset=\"utf-8\">\n",
    "<meta name=\"viewport\" content=\"width=device-width, initial-scale=1\">\n",
    "<title>Hash Archive - History for \x7b\x7bquery\x7d\x7d</title>\n",
    "<link rel=\"stylesheet\" type=\"text/css\" href=\"/index.css\">\n",
    "\n",
    "<h1 class=\"margin\"><a href=\"/\">Hash Archive</a> <sup>(beta)</sup></h1>\n",
    "\n",
    "<form class=\"lookup margin\" method=\"post\" action=\"/lookup\">\n",
    "<label>URL or hash:</label>\n",
    "<div class=\"field wrap\"><input type=\"text\" name=\"str\" ",
      "value=\"\x7b\x7bquery\x7d\x7d\"></div>\n",
    "<div class=\"submit wrap\"><input type=\"submit\" value=\"Lookup\"></div>\n",
    "</form>\n",
    "\n",
    "<h2 class=\"margin break\">History for <span ",
      "id=\"url\">\x7b\x7burl-link\x7d\x7d</span></h2>\n",
    "\n",
    "<ul>\n",
    "<li><a href=\"\x7b\x7bwayback-url\x7d\x7d\">Check this URL on the Wayback Machine</a>\n",
    "<li><a href=\"\x7b\x7bgoogle-url\x7d\x7d\">Check this URL on Google Cache</a>\n",
    "<li><a href=\"\x7b\x7bvirustotal-url\x7d\x7d\">Check this URL on VirusTotal</a>\n",
    "</ul>\n",
    "\n",
    "<div class=\"margin\">Hashes for dynamically generated pages may be unstable.</div>\n",
    "<div class=\"margin\">Greyed out hashes are potentially vulnerable to collisions. ",
      "SHA-256 is recommended for current and future use.</div>\n",
    "<div class=\"margin\">MultiHashes are not compatible with IPFS, and Magnet URIs ",
      "are not compatible with BitTorrent, due to the way each protocol <a ",
      "href=\"/#compat\">computes its hashes</a>.</div>\n",
    "\n"]

/-- `history-footer.html`. -/
def historyFooterHtml : Str := []

/-- `history-entry.html`. -/
def historyEntryHtml : Str := file [
    "<div class=\"entry margin\">\n",
    "<div>\x7b\x7bdate\x7d\x7d</div>\n",
    "\n",
    "<div>\n",
    "<p><a href=\"https://github.com/hash-uri/hash-uri\">Hash URIs</a> (hex encoded):</p>\n",
    "<ul class=\"break\">\x7b\x7bhash-uri-list\x7d\x7d</ul>\n",
    "</div>\n",
    "\n",
    "<div>\n",
    "<p><a href=\"https://tools.ietf.org/html/rfc6920\">Named Info</a> (base64-url ",
      "encoded):</p>\n",
    "<ul class=\"break\">\x7b\x7bnamed-info-list\x7d\x7d</ul>\n",
    "</div>\n",
    "\n",
    "<div>\n",
    "<p><a href=\"https://www.w3.org/TR/SRI\">Subresource Integrity</a> (base64 ",
      "encoded):</p>\n",
    "<ul class=\"break\">\x7b\x7bprefix-list\x7d\x7d</ul>\n",
    "</div>\n",
    "\n",
    "<div>\n",
    "<p><a href=\"https://github.com/ssbc/docs/blob/master/ssb/linking.md\">SSB</a> ",
      "(base64 encoded):</p>\n",
    "<ul class=\"break\">\x7b\x7bssb-list\x7d\x7d</ul>\n",
    "</div>\n",
    "\n",
    "<div>\n",
    "<p><a href=\"https://github.com/jbenet/multihash\">MultiHashes</a> (base58 ",
      "encoded):</p>\n",
    "<ul class=\"break\">\x7b\x7bmultihash-list\x7d\x7d</ul>\n",
    "</div>\n",
    "\n",
    "<div>\n",
    "<p><a href=\"http://magnet-uri.sourceforge.net/\">Magnet URI</a> (hex encoded):</p>\n",
    "<ul class=\"break\">\x7b\x7bmagnet-list\x7d\x7d</ul>\n",
    "</div>\n",
    "\n",
    "<div>\x7b\x7bdates\x7d\x7d</div>\n",
    "</div>\n",
    "\n"]

/-- `history-error.html`. -/
def historyErrorHtml : Str := file [
    "<div class=\"entry margin error\">\n",
    "<div>\x7b\x7bdate\x7d\x7d</div>\n",
    "<div class=\"center\">Error: \x7b\x7berror\x7d\x7d</div>\n",
    "</div>\n",
    "\n"]

/-- `history-outdated.html`. -/
def historyOutdatedHtml : Str := file [
    "<div id=\"pending\" class=\"entry margin\">A new request for this URL has been ",
      "queued. Please check back soon for the latest results.</div>\n",
    "<script>\n",
    "function req(URL, cb) \x7b\n",
    "\tvar req = null;\n",
    "\tif(window.XMLHttpRequest && !window.ActiveXObject) \x7b\n",
    "\t\ttry \x7b req = new XMLHttpRequest(); \x7d catch(e) \x7b\x7d\n",
    "\t\x7d else if(window.ActiveXObject) \x7b\n",
    "\t\ttry \x7b req = new ActiveXObject(\"Msxml2.XMLHTTP\"); \x7d catch(e1) \x7b\n",
    "\t\t\ttry \x7b req = new ActiveXObject(\"Microsoft.XMLHTTP\"); \x7d catch(e2) \x7b\x7d\n",
    "\t\t\x7d\n",
    "\t\x7d\n",
    "\treq.open(\"GET\", URL, true);\n",
    "\treq.onreadystatechange = function() \x7b\n",
    "\t\tif(4 !== req.readyState) return;\n",
    "\t\tif(200 !== req.status) return cb(new Error(\"Unexpected status ",
      "\"+req.status), null);\n",
    "\t\tcb(null, JSON.parse(req.responseText));\n",
    "\t\x7d;\n",
    "\treq.setRequestHeader(\"Content-Type\", \"text/json; charset=utf-8\");\n",
    "\treq.send(\"\");\n",
    "\x7d;\n",
    "var url = document.querySelector(\"#url a\").href;\n",
    "req(\"/api/enqueue/\"+url, function(err, body) \x7b\n",
    "\tif(err) \x7b\n",
    "\t\tconsole.log(err);\n",
    "\t\treturn;\n",
    "\t\x7d\n",
    "\twindow.location = window.location;\n",
    "\x7d);\n",
    "</script>\n",
    "\n"]

/-- `sources-header.html`. -/
def sourcesHeaderHtml : Str := file [
    "<!doctype html>\n",
    "<meta charset=\"utf-8\">\n",
    "<meta name=\"viewport\" content=\"width=device-width, initial-scale=1\">\n",
    "<title>Hash Archive - Sources for \x7b\x7bquery\x7d\x7d</title>\n",
    "<link rel=\"stylesheet\" type=\"text/css\" href=\"/index.css\">\n",
    "\n",
    "<h1 class=\"margin\"><a href=\"/\">Hash Archive</a> <sup>(beta)</sup></h1>\n",
    "\n",
    "<form class=\"lookup margin\" method=\"post\" action=\"/lookup\">\n",
    "<label>URL or hash:</label>\n",
    "<div class=\"field wrap\"><input type=\"text\" name=\"str\" ",
      "value=\"\x7b\x7bquery\x7d\x7d\"></div>\n",
    "<div class=\"submit wrap\"><input type=\"submit\" value=\"Lookup\"></div>\n",
    "</form>\n",
    "\n",
    "<h2 class=\"margin break\">Sources for \x7b\x7bhash-link\x7d\x7d</h2>\n",
    "\n",
    "<ul>\n",
    "<li><a href=\"\x7b\x7bgoogle-url\x7d\x7d\">Search for this hash on Google</a>\n",
    "<li><a href=\"\x7b\x7bduckduckgo-url\x7d\x7d\">Search for this hash on DuckDuckGo</a>\n",
    "<li><a href=\"\x7b\x7bipfs-block-url\x7d\x7d\">Search for this block on IPFS</a>\n",
    "<li><a href=\"\x7b\x7bvirustotal-url\x7d\x7d\">Check this hash on VirusTotal</a>\n",
    "<li>Other useful sources...?\n",
    "</ul>\n",
    "\n"]

/-- `sources-footer.html`. -/
def sourcesFooterHtml : Str := []

/-- `sources-entry.html`. -/
def sourcesEntryHtml : Str := file [
    "<div class=\"entry margin \x7b\x7bobsolete\x7d\x7d\">\n",
    "<div>\x7b\x7bdate\x7d\x7d</div>\n",
    "<div class=\"center break\">\x7b\x7burl\x7d\x7d</div>\n",
    "</div>\n",
    "\n"]

/-- `sources-notfound.html`. -/
def sourcesNotfoundHtml : Str := file [
    "<div class=\"entry margin center\">No results were found for this hash.</div>\n",
    "\n"]

/-- `sources-short.html`. -/
def sourcesShortHtml : Str := file [
    "<div class=\"margin\">Warning: this hash is very short! It's possible for ",
      "unexpected collisions to be found.</div>\n",
    "\n"]

/-- `sources-weak.html`. -/
def sourcesWeakHtml : Str := file [
    "<div class=\"margin\">Warning: this hash uses a weak algorithm! It's ",
      "theoretically possible for unexpected collisions to be found.</div>\n",
    "\n"]

/-- `error.html`. -/
def errorHtml : Str := file [
    "<!doctype html>\n",
    "<meta charset=\"utf-8\">\n",
    "<title>Hash Archive - Error</title>\n",
    "<link rel=\"stylesheet\" type=\"text/css\" href=\"/index.css\">\n",
    "\n",
    "<h1 class=\"margin\"><a href=\"/\">Hash Archive</a> <sup>(beta)</sup></h1>\n",
    "\n",
    "<form class=\"lookup margin\" method=\"post\" action=\"/lookup\">\n",
    "<label>URL or hash:</label>\n",
    "<div class=\"field wrap\"><input type=\"text\" name=\"str\" ",
      "value=\"\x7b\x7bquery\x7d\x7d\"></div>\n",
    "<div class=\"submit wrap\"><input type=\"submit\" value=\"Lookup\"></div>\n",
    "</form>\n",
    "\n",
    "<h2 class=\"margin break\">Parse error...</h2>\n",
    "\n",
    "<div class=\"margin\">\n",
    "<p>Query was not a supported URL or hash. Please see <a href=\"/\">the ",
      "examples</a>.</p>\n",
    "<p>If you think this page was generated in error, please <a ",
      "href=\"https://github.com/btrask/hash-archive/issues\">report</a> the query you ",
      "gave.</p>\n",
    "</div>\n",
    "\n"]

/-- `index.html`, up to the critical URLs. -/
def indexLookupHtml : Str := file [
    "<!doctype html>\n",
    "<meta charset=\"utf-8\">\n",
    "<meta name=\"viewport\" content=\"width=device-width, initial-scale=1\">\n",
    "<title>Hash Archive</title>\n",
    "<link rel=\"stylesheet\" type=\"text/css\" href=\"/index.css\">\n",
    "\n",
    "<h1 class=\"margin\">Hash Archive <sup>(beta)</sup></h1>\n",
    "\n",
    "<form class=\"lookup margin\" method=\"post\" action=\"/lookup\">\n",
    "<label>URL or hash:</label>\n",
    "<div class=\"field wrap\"><input type=\"text\" name=\"str\"></div>\n",
    "<div class=\"submit wrap\"><input type=\"submit\" value=\"Lookup\"></div>\n",
    "</form>\n",
    "\n",
    "<div class=\"entry margin\">\n",
    "Example lookups\n",
    "<ul id=\"examples\" class=\"break\">\n",
    "<li><a href=\"https://tools.ietf.org/html/rfc3986\">Web URL</a>: ",
      "\x7b\x7bweb-url-example\x7d\x7d\n",
    "<li><a href=\"https://github.com/hash-uri/hash-uri\">Hash URI</a>: ",
      "\x7b\x7bhash-uri-example\x7d\x7d\n",
    "<li><a href=\"https://tools.ietf.org/html/rfc6920\">Named Info</a>: ",
      "\x7b\x7bnamed-info-example\x7d\x7d\n",
    "<li><a href=\"https://www.w3.org/TR/SRI\">Subresource Integrity</a>: ",
      "\x7b\x7bprefix-example\x7d\x7d\n",
    "<li><a href=\"https://github.com/ssbc/docs/blob/master/ssb/linking.md\">SSB</a>: ",
      "\x7b\x7bssb-example\x7d\x7d\n",
    "<li><a href=\"https://github.com/jbenet/multihash\">MultiHash</a>: ",
      "\x7b\x7bmultihash-example\x7d\x7d\n",
    "<li><a href=\"http://magnet-uri.sourceforge.net/\">Magnet URI</a>: ",
      "\x7b\x7bmagnet-example\x7d\x7d\n",
    "</ul>\n",
    "</div>\n",
    "\n",
    "<div class=\"entry margin\">\n",
    "Recently fetched URLs\n",
    "<ul id=\"recent-list\" class=\"break\">\x7b\x7brecent-list\x7d\x7d</ul>\n",
    "</div>\n",
    "\n",
    "<div class=\"entry margin\">\n",
    "<div><a href=\"/critical/\">Critical URLs</a></div>\n",
    "<p>Examples:</p>\n",
    "<ul id=\"critical-list\" class=\"break\">\x7b\x7bcritical-list\x7d\x7d</ul>\n",
    "</div>\n",
    "\n"]

/-- `index.html`, about the site. -/
def indexAboutHtml : Str := file [
    "<div class=\"entry margin\">\n",
    "<div>About</div>\n",
    "<p>I made this site because so many Linux distributions still don't provide ",
      "easy+secure download options in <code>$YEAR</code>. Using this archive (and ",
      "hopefully other sources), you can have at least a small amount of confidence in ",
      "the authenticity of your ISOs. Just put in the URL of the ISO, torrent file, or ",
      "any other HTTP (or HTTPS) resource and we'll request the file and compute the ",
      "hash for you using a wide variety of algorithms.</p>\n",
    "\n",
    "<p>For sites that don't support HTTPS, this is a little bit like domain ",
      "validation for certificates. Unless someone can intercept your local traffic ",
      "<i>and</i> our traffic to a site, you'll be able to spot <a ",
      "href=\"https://en.wikipedia.org/wiki/Man-in-the-middle_attack\">MITM attacks</a>. ",
      "This level of security isn't great, but it's better than nothing.</p>\n",
    "\n",
    "<p>For sites that <i>do</i> support HTTPS, validating hashes from a third party ",
      "is still useful. It can tell you if the server was compromised (like <a ",
      "href=\"http://blog.linuxmint.com/?p=2994\">Linux Mint recently</a>) or if the ",
      "site is trying to make stealth updates (like on political campaign sites). This ",
      "is a little bit like <a ",
      "href=\"https://www.certificate-transparency.org/\">Certificate Transparency</a>, ",
      "or, of course, the Internet Archive's <a ",
      "href=\"https://archive.org/web/\">Wayback Machine</a>.</p>\n",
    "\n",
    "<p>You can also do reverse lookups to find out what URLs provide (or used to ",
      "provide) a given hash. This might be useful for finding mirrors (although it only ",
      "works if we've previously crawled those URLs).</p>\n",
    "\n",
    "<ul>\n",
    "<li><a ",
      "href=\"javascript:void(open(&quot;http://\x7b\x7bhost\x7d\x7d/history/&quot;+document.location))\">Bookmarklet ",
      "(right click and choose \"bookmark this link\")</a>\n",
    "<li><a href=\"./database.sql.gz\">Download the latest database snapshot</a>\n",
    "<li><a href=\"https://github.com/btrask/hash-archive\">Site source code</a>\n",
    "</ul>\n",
    "</div>\n",
    "\n"]

/-- `index.html`, the first questions. -/
def indexQuestionsHtml : Str := file [
    "<div class=\"entry margin\">\n",
    "<div>FAQ</div>\n",
    "\n",
    "<p><b>What kind of questions can Hash Archive answer?</b></p>\n",
    "<p>It can answer questions such as:</p>\n",
    "<ul>\n",
    "<li>Was this file downloaded from that URL?\n",
    "<li>Did this URL provide the same file last week?\n",
    "<li>Does this URL provide the same file to other clients?\n",
    "<li>What mirrors are available for this URL?\n",
    "<li>Where did this file come from?\n",
    "</ul>\n",
    "\n",
    "<p><b>How can I compute and verify my own hashes?</b></p>\n",
    "<p>There are several options:</p>\n",
    "<ul>\n",
    "<li>Hash URIs (CLI): use <a ",
      "href=\"https://github.com/hash-uri/hash-uri/tree/master/cli\">hash-uri</a>, which ",
      "can compute hashes and do validation for you\n",
    "<li>MultiHash (CLI): use <a ",
      "href=\"https://jbenet.github.io/hashpipe/\">HashPipe</a>, which can output ",
      "verified data\n",
    "<li>Linux (CLI): use <code>sha256sum -b [file]</code>\n",
    "<li>Mac OS X (CLI): use <code>shasum -b -a 256 [file]</code>\n",
    "<li>Windows (CLI): use <a ",
      "href=\"https://www.microsoft.com/en-us/download/details.aspx?id=11533\">Microsoft ",
      "File Checksum Integrity Verifier</a> (only supports SHA-1 and MD5)\n",
    "<li>GUI apps: unknown\n",
    "</ul>\n",
    "\n"]

/-- `index.html`, the questions on hashes. -/
def indexSecurityHtml : Str := file [
    "<p><b>Are hashes actually secure?</b></p>\n",
    "<p>If they use a good algorithm and are at least 16-24 bytes long, then yes.</p>\n",
    "\n",
    "<p><b>Is it better to use even longer hashes like SHA-384 or SHA-512?</b></p>\n",
    "<p>There are diminishing returns. Past a certain point, the length does not ",
      "matter. I'm not qualified to comment on differences in the algorithms themselves, ",
      "but SHA-256 is widely accepted.</p>\n",
    "<p>You can check the probability tables for hash collisions yourself <a ",
      "href=\"https://en.wikipedia.org/wiki/Birthday_problem#Probability_table\">here</a>.</p>\n",
    "\n",
    "<p><b>What do <sup>[#]</sup> links do?</b></p>\n",
    "<p>Those provide the hash as a raw link, for formats that support it. In theory ",
      "you could use it to resolve the hash through a different system. However, you ",
      "need the appropriate protocol handler, and for now software support is mostly ",
      "non-existant. My other project <a ",
      "href=\"https://github.com/btrask/stronglink\">StrongLink</a> has limited support, ",
      "if you configure it. A big problem is <a ",
      "href=\"https://html.spec.whatwg.org/#safelisted-scheme\">the protocol ",
      "safelist</a>, which makes it difficult for web apps to resolve hashes (see ",
      "complaints <a href=\"https://github.com/jquery/standards/issues/12\">here</a> and ",
      "<a ",
      "href=\"https://lists.w3.org/Archives/Public/public-whatwg-archive/2015Mar/0011.html\">here</a>).</p>\n",
    "<p>If you right click the <sup>[#]</sup> and choose \"copy link,\" you'll get a ",
      "link you can paste into a resolver (such as StrongLink) or chat/email.</p>\n",
    "\n"]

/-- `index.html`, the last questions. -/
def indexCompatHtml : Str := file [
    "<p id=\"compat\"><b>Why aren't the MultiHashes compatible with IPFS, or the ",
      "Magnet URIs compatible with BitTorrent?</b></p>\n",
    "<p>IPFS and BitTorrent compute their hashes in their own protocol-specific ways. ",
      "BitTorrent hashes vary depending on the file name (amongst other things) and IPFS ",
      "hashes vary depending on the chunker used. See my article, <a ",
      "href=\"https://bentrask.com/?q=hash://sha256/98493caa8b37eaa26343bbf73f232597a3ccda20498563327a4c3713821df892\">The ",
      "Principles of Content Addressing</a>, or this <a ",
      "href=\"https://github.com/ipfs/go-ipfs/issues/1953\">IPFS bug report</a>. ",
      "However, you can submit URLs from the <a href=\"https://ipfs.io/\">ipfs.io ",
      "gateway</a> to bridge between them.</p>\n",
    "\n",
    "<p><b>Is there an API?</b></p>\n",
    "<p>Not yet, but support is planned. For now, please use a <a ",
      "href=\"./database.sql.gz\">database snapshot</a>.</p>\n",
    "\n",
    "<p><b>Can you add a new algorithm?</b></p>\n",
    "<p>Yes, if: 1. the algorithm is relatively efficient, 2. it's in widespread use ",
      "or in high demand, and 3. if there is a drop-in Node.js module we can use. Please ",
      "check our <a href=\"https://github.com/btrask/hash-archive/issues\">issues ",
      "list</a> and open a new one if it hasn't been proposed already.</p>\n",
    "\n",
    "<p><b>Why not use the Web of Trust?</b></p>\n",
    "<p>This is a link in the Web of Trust.</p>\n",
    "\n",
    "<p class=\"footer\">Created by <a href=\"https://bentrask.com\">Ben Trask</a> in ",
      "association with <a href=\"https://archivelab.org\">Archive Labs</a></p>\n",
    "</div>\n",
    "\n"]

/-- `index.html`. -/
def indexHtml : Str :=
  indexLookupHtml ++
    (indexAboutHtml ++ (indexQuestionsHtml ++ (indexSecurityHtml ++ indexCompatHtml)))

/-! ## Holes -/

/-- Where the variables of the history page stand. -/
structure HistoryHoles : Prop where
  header : Holes .text historyHeaderHtml
    [(.text, "query".toList), (.doubleQuoted, "query".toList), (.text, "url-link".toList),
      (.doubleQuoted, "wayback-url".toList), (.doubleQuoted, "google-url".toList),
      (.doubleQuoted, "virustotal-url".toList)] .text
  outdated : Holes .text historyOutdatedHtml [] .text
  entry : Holes .text historyEntryHtml
    [(.text, "date".toList), (.text, "hash-uri-list".toList),
      (.text, "named-info-list".toList), (.text, "prefix-list".toList),
      (.text, "ssb-list".toList), (.text, "multihash-list".toList),
      (.text, "magnet-list".toList), (.text, "dates".toList)] .text
  error : Holes .text historyErrorHtml
    [(.text, "date".toList), (.text, "error".toList)] .text

theorem historyHoles : HistoryHoles where
  header := by
    apply @holes_of_findHoles _ _ _ _ 1500
    rw [historyHeaderHtml]
    repeat rw [file_cons]
    decide +kernel
  outdated := by
    apply @holes_of_findHoles _ _ _ _ 1500
    rw [historyOutdatedHtml]
    repeat rw [file_cons]
    decide +kernel
  entry := by
    apply @holes_of_findHoles _ _ _ _ 1500
    rw [historyEntryHtml]
    repeat rw [file_cons]
    decide +kernel
  error := by
    apply @holes_of_findHoles _ _ _ _ 1500
    rw [historyErrorHtml]
    repeat rw [file_cons]
    decide +kernel

/-- Where the variables of the sources page and of the page of an error stand. -/
structure SourcesHoles : Prop where
  header : Holes .text sourcesHeaderHtml
    [(.text, "query".toList), (.doubleQuoted, "query".toList), (.text, "hash-link".toList),
      (.doubleQuoted, "google-url".toList), (.doubleQuoted, "duckduckgo-url".toList),
      (.doubleQuoted, "ipfs-block-url".toList), (.doubleQuoted, "virustotal-url".toList)] .text
  entry : Holes .text sourcesEntryHtml
    [(.doubleQuoted, "obsolete".toList), (.text, "date".toList), (.text, "url".toList)] .text
  error : Holes .text errorHtml [(.doubleQuoted, "query".toList)] .text

theorem sourcesHoles : SourcesHoles where
  header := by
    apply @holes_of_findHoles _ _ _ _ 1500
    rw [sourcesHeaderHtml]
    repeat rw [file_cons]
    decide +kernel
  entry := by
    apply @holes_of_findHoles _ _ _ _ 1500
    rw [sourcesEntryHtml]
    repeat rw [file_cons]
    decide +kernel
  error := by
    apply @holes_of_findHoles _ _ _ _ 1500
    rw [errorHtml]
    repeat rw [file_cons]
    decide +kernel

/-- The holes of the front page for the examples. -/
def exampleHoles : List (Position × Str) :=
  [(.text, "web-url-example".toList), (.text, "hash-uri-example".toList),
    (.text, "named-info-example".toList), (.text, "prefix-example".toList),
    (.text, "ssb-example".toList), (.text, "multihash-example".toList),
    (.text, "magnet-example".toList)]

/-- A part of a file that ends with a line end. -/
structure PartHoles (part : Str) (holes : List (Position × Str)) : Prop where
  holes : Holes .text part holes .text
  lineEnd : part.getLast? = some '\n'

/-- What follows such a part has its holes as well. -/
theorem PartHoles.append {part rest : Str} {holes more : List (Position × Str)}
    (ended : PartHoles part holes) (continued : Holes .text rest more .text) :
    Holes .text (part ++ rest) (holes ++ more) .text :=
  ended.holes.append (fun _ last => Option.some_inj.mp (last.symm.trans ended.lineEnd)) continued

/-- The parts of the front page that have holes. -/
theorem partHoles_index : PartHoles indexLookupHtml
      (exampleHoles ++ [(.text, "recent-list".toList), (.text, "critical-list".toList)]) ∧
    PartHoles indexAboutHtml [(.doubleQuoted, "host".toList)] := by
  refine ⟨⟨@holes_of_findHoles _ _ _ _ 2000 ?_, ?_⟩, ⟨@holes_of_findHoles _ _ _ _ 2000 ?_, ?_⟩⟩
  all_goals
    first
    | rw [indexLookupHtml]
    | rw [indexAboutHtml]
    repeat rw [file_cons]
    decide +kernel

/-- The parts of the front page that have none. -/
theorem partHoles_index_nil : PartHoles indexQuestionsHtml [] ∧ PartHoles indexSecurityHtml [] ∧
    PartHoles indexCompatHtml [] := by
  refine ⟨⟨@holes_of_findHoles _ _ _ _ 2000 ?_, ?_⟩, ⟨@holes_of_findHoles _ _ _ _ 2000 ?_, ?_⟩,
    ⟨@holes_of_findHoles _ _ _ _ 2000 ?_, ?_⟩⟩
  all_goals
    first
    | rw [indexQuestionsHtml]
    | rw [indexSecurityHtml]
    | rw [indexCompatHtml]
    repeat rw [file_cons]
    decide +kernel

/-- **The holes of the front page.** -/
theorem holes_indexHtml : Holes .text indexHtml
    (exampleHoles ++ (.text, "recent-list".toList) ::
      [(.text, "critical-list".toList), (.doubleQuoted, "host".toList)]) .text := by
  obtain ⟨lookup, about⟩ := partHoles_index
  obtain ⟨questions, security, compat⟩ := partHoles_index_nil
  exact lookup.append (about.append (questions.append (security.append compat.holes)))

end HashArchive.Pages
